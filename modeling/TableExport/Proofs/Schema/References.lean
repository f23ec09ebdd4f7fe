import TableExport.Proofs.Schema.Resolving
import TableExport.Schema.Documents

/-!
# The references of a set of documents

A walk along references meets finitely many of them: those that stand in the documents and in the
node that it starts from. They name finitely many places, whose keys are listed by
`SchemaReference.keys`. `Inside` says of a place that a walk can be at that its document is one of
these names, and that its node has no other references and is not too large; a reference leads from
one such place to another (`inside_of_hop`).
-/

namespace TableExport

namespace Json

mutual

/-- The references in a value, wherever they stand. -/
def references : Json → List String
  | .obj members => referencesMembers members
  | .arr items => referencesItems items
  | _ => []

/-- The references in the items of an array. -/
def referencesItems : List Json → List String
  | [] => []
  | item :: rest => item.references ++ referencesItems rest

/-- The references in the members of an object, and of the object itself. -/
def referencesMembers : List (String × Json) → List String
  | [] => []
  | (name, value) :: rest =>
    (if name = "$ref" then value.str?.toList else []) ++
      (value.references ++ referencesMembers rest)

end

mutual

/-- There are no more references than nodes. -/
theorem length_references_le : ∀ value : Json, value.references.length ≤ value.size
  | .obj members => by
    have := length_referencesMembers_le members
    rw [references, size]
    omega
  | .arr items => by
    have := length_referencesItems_le items
    rw [references, size]
    omega
  | .null | .bool _ | .num _ | .str _ => by
    rw [references.eq_def]
    exact Nat.zero_le _

theorem length_referencesItems_le : ∀ items : List Json,
    (referencesItems items).length ≤ sizeItems items
  | [] => by
    rw [referencesItems]
    exact Nat.zero_le _
  | item :: rest => by
    have := length_references_le item
    have := length_referencesItems_le rest
    rw [referencesItems, sizeItems, List.length_append]
    omega

theorem length_referencesMembers_le : ∀ members : List (String × Json),
    (referencesMembers members).length ≤ sizeMembers members
  | [] => by
    rw [referencesMembers]
    exact Nat.zero_le _
  | (name, value) :: rest => by
    have hvalue := length_references_le value
    have hrest := length_referencesMembers_le rest
    -- a reference is a text, which has no references in it
    have hown : (if name = "$ref" then value.str?.toList else []).length +
        value.references.length ≤ value.size := by
      split
      · cases value with
        | str text =>
          rw [references.eq_def, size.eq_def]
          exact le_refl _
        | _ =>
          simp only [str?, Option.toList_none, List.length_nil]
          omega
      · simp only [List.length_nil]
        omega
    rw [referencesMembers, sizeMembers, List.length_append, List.length_append]
    omega

end

theorem size_pos (value : Json) : 0 < value.size := by
  cases value <;> rw [size.eq_def] <;> simp

/-! ## Parts -/

/-- A value has no references that another has not, and it is not larger. -/
structure Within (part whole : Json) : Prop where
  references : part.references ⊆ whole.references
  size : part.size ≤ whole.size

theorem Within.refl (value : Json) : value.Within value := ⟨fun _ hr => hr, le_refl _⟩

theorem Within.trans {first second third : Json} (h : first.Within second)
    (h' : second.Within third) : first.Within third :=
  ⟨fun _ hr => h'.references (h.references hr), h.size.trans h'.size⟩

/-- The value of a member is smaller than its object. -/
theorem within_of_mem_members {members : List (String × Json)} {member : String × Json}
    (h : member ∈ members) :
    member.2.Within (.obj members) ∧ member.2.size < (Json.obj members).size := by
  have hsub : member.2.references ⊆ referencesMembers members := by
    induction members with
    | nil => cases h
    | cons first rest ih =>
      obtain ⟨name, value⟩ := first
      rw [referencesMembers]
      rcases List.mem_cons.1 h with rfl | h
      · exact fun _ hr => List.mem_append_right _ (List.mem_append_left _ hr)
      · exact fun _ hr => List.mem_append_right _ (List.mem_append_right _ (ih h hr))
  have hsize : member.2.size ≤ sizeMembers members := by
    clear hsub
    induction members with
    | nil => cases h
    | cons first rest ih =>
      obtain ⟨name, value⟩ := first
      rw [sizeMembers]
      rcases List.mem_cons.1 h with rfl | h
      · exact Nat.le_add_right _ _
      · exact (ih h).trans (Nat.le_add_left _ _)
  have hlt : member.2.size < (Json.obj members).size := by
    rw [size]
    omega
  refine ⟨⟨?_, hlt.le⟩, hlt⟩
  rw [references]
  exact hsub

/-- An item is smaller than its array. -/
theorem within_of_mem_items {items : List Json} {item : Json} (h : item ∈ items) :
    item.Within (.arr items) ∧ item.size < (Json.arr items).size := by
  have hsub : item.references ⊆ referencesItems items := by
    induction items with
    | nil => cases h
    | cons first rest ih =>
      rw [referencesItems]
      rcases List.mem_cons.1 h with rfl | h
      · exact List.subset_append_left _ _
      · exact fun _ hr => List.mem_append_right _ (ih h hr)
  have hsize : item.size ≤ sizeItems items := by
    clear hsub
    induction items with
    | nil => cases h
    | cons first rest ih =>
      rw [sizeItems]
      rcases List.mem_cons.1 h with rfl | h
      · exact Nat.le_add_right _ _
      · exact (ih h).trans (Nat.le_add_left _ _)
  have hlt : item.size < (Json.arr items).size := by
    rw [size]
    omega
  refine ⟨⟨?_, hlt.le⟩, hlt⟩
  rw [references]
  exact hsub

theorem exists_mem_of_get? {value part : Json} {name : String} (h : value.get? name = some part) :
    ∃ members, value = .obj members ∧ (name, part) ∈ members := by
  cases value with
  | obj members => exact ⟨members, rfl, Entries.mem_of_get? h⟩
  | _ => cases h

/-- A node's own reference is among its references. -/
theorem mem_references_of_get? {value : Json} {reference : String}
    (h : value.get? "$ref" = some (.str reference)) : reference ∈ value.references := by
  obtain ⟨members, rfl, hm⟩ := exists_mem_of_get? h
  rw [references]
  clear h
  induction members with
  | nil => cases hm
  | cons first rest ih =>
    obtain ⟨name, value⟩ := first
    rw [referencesMembers]
    rcases List.mem_cons.1 hm with heq | hm
    · cases heq
      exact List.mem_append_left _ (List.mem_singleton_self _)
    · exact List.mem_append_right _ (List.mem_append_right _ (ih hm))

theorem within_child? {value part : Json} {segment : String}
    (h : Pointer.child? value segment = some part) : part.Within value := by
  cases value with
  | obj members => exact (within_of_mem_members (Entries.mem_of_get? h)).1
  | arr items =>
    obtain ⟨i, -, hi⟩ := Option.bind_eq_some_iff.1 h
    exact (within_of_mem_items (List.mem_of_getElem? hi)).1
  | _ => cases h

/-- A pointer leads into a part. -/
theorem within_lookup {root part : Json} {pointer : String}
    (h : Pointer.lookup root pointer = .ok part) : part.Within root := by
  rw [Pointer.lookup] at h
  generalize (Pointer.segments pointer).map Pointer.unescape = path at h
  induction path generalizing root with
  | nil =>
    cases h
    exact Within.refl part
  | cons segment rest ih =>
    rw [Pointer.walk] at h
    cases hchild : Pointer.child? root segment with
    | none =>
      rw [hchild] at h
      cases h
    | some child =>
      rw [hchild] at h
      exact (ih h).trans (within_child? hchild)

end Json

/-! ## Keys -/

namespace SchemaReference

/-- The documents that a walk can be in: the one it starts in and those that references name. -/
def targets (start : String) (references : List String) : List String :=
  start :: (references.filterMap split?).map Prod.fst

/-- The keys of the places that references can lead to. -/
def keys (start : String) (references : List String) : List String :=
  (targets start references).flatMap fun target =>
    (references.filterMap split?).map fun parts => key target parts.2

theorem mem_keys {start reference target pointer document : String} {references : List String}
    (hr : reference ∈ references) (hsplit : split? reference = some (target, pointer))
    (hdocument : document ∈ targets start references) :
    key document pointer ∈ keys start references :=
  List.mem_flatMap.2 ⟨document, hdocument, List.mem_map.2
    ⟨(target, pointer), List.mem_filterMap.2 ⟨reference, hr, hsplit⟩, rfl⟩⟩

/-- There are at most as many keys as documents times pointers. -/
theorem length_keys_le {start : String} {references : List String} {count : Nat}
    (h : references.length ≤ count) : (keys start references).length ≤ (count + 1) * count := by
  have hparts : (references.filterMap split?).length ≤ count :=
    (List.length_filterMap_le _ _).trans h
  have hlength : (keys start references).length =
      (targets start references).length * (references.filterMap split?).length := by
    rw [keys, List.length_flatMap]
    simp
  rw [hlength]
  apply Nat.mul_le_mul _ hparts
  rw [targets, List.length_cons, List.length_map]
  omega

end SchemaReference

/-! ## Places -/

/-- A place that a walk can be at: a document that can be named, and a node with no references but
those given and with a bounded size. -/
structure Inside (start : String) (references : List String) (size : Nat) (document : String)
    (node : Json) : Prop where
  document : document ∈ SchemaReference.targets start references
  references : node.references ⊆ references
  size : node.size ≤ size

variable {start : String} {references : List String} {size : Nat}

theorem Inside.part {document : String} {node part : Json}
    (h : Inside start references size document node) (hpart : part.Within node) :
    Inside start references size document part :=
  ⟨h.document, fun _ hr => h.references (hpart.references hr), hpart.size.trans h.size⟩

/-- A library of documents with no references but those given and a bounded size, whose failing
reads are no circles. -/
structure Library.Bounded (library : Library (Except SchemaError)) (references : List String)
    (size : Nat) : Prop where
  references : ∀ name root, library.read name = .ok root → root.references ⊆ references
  size : ∀ name root, library.read name = .ok root → root.size ≤ size
  read_ne : ∀ name chain, library.read name ≠ .error (.circularReference chain)

namespace Library

variable {library : Library (Except SchemaError)}

/-- **A reference leads from one place to another, under a new key.** -/
theorem inside_of_hop (hlibrary : library.Bounded references size) {from_ next : Resolved}
    {reference : String} (hfrom : Inside start references size from_.document from_.schema)
    (href : from_.schema.get? "$ref" = some (.str reference))
    (h : library.hop from_ reference = .ok next) :
    Inside start references size next.document next.schema ∧
      ∃ key ∈ SchemaReference.keys start references, key ∉ from_.chain ∧
        next.chain = from_.chain ++ [key] := by
  obtain ⟨target, pointer, root, hsplit, hdocument, hnew, hroot, hlookup, hchain⟩ := hop_eq_ok h
  have hmem := hfrom.references (Json.mem_references_of_get? href)
  have htarget : next.document ∈ SchemaReference.targets start references := by
    rw [hdocument]
    split
    · exact hfrom.document
    · exact List.mem_cons_of_mem _ (List.mem_map.2
        ⟨(target, pointer), List.mem_filterMap.2 ⟨reference, hmem, hsplit⟩, rfl⟩)
  have hwithin := Json.within_lookup hlookup
  exact ⟨⟨htarget, fun _ hr => hlibrary.references _ _ hroot (hwithin.references hr),
      hwithin.size.trans (hlibrary.size _ _ hroot)⟩,
    _, SchemaReference.mem_keys hmem hsplit htarget, hnew, hchain⟩

/-! ## Walks end -/

/-- A walk that is at a place of the given ones and has met different keys. -/
structure Walked (start : String) (references : List String) (size : Nat) (at_ : Resolved) :
    Prop where
  inside : Inside start references size at_.document at_.schema
  nodup : at_.chain.Nodup
  subset : at_.chain ⊆ SchemaReference.keys start references

theorem Walked.length_le {at_ : Resolved} (h : Walked start references size at_) :
    at_.chain.length ≤ (SchemaReference.keys start references).length :=
  (h.nodup.subperm h.subset).length_le

/-- A step keeps a walk among the given places and its keys different. -/
theorem walked_of_hopsTo (hlibrary : library.Bounded references size) {from_ next : Resolved}
    (h : Walked start references size from_) (hstep : library.HopsTo from_ next) :
    Walked start references size next := by
  obtain ⟨reference, href, hhop⟩ := hstep
  obtain ⟨hinside, key, hkey, hnew, hchain⟩ := inside_of_hop hlibrary h.inside href hhop
  refine ⟨hinside, ?_, ?_⟩
  · rw [hchain]
    exact Entries.nodup_keys_concat.2 ⟨hnew, h.nodup⟩
  · rw [hchain]
    exact List.append_subset.2 ⟨h.subset, by simpa using hkey⟩

theorem walked_of_walk (hlibrary : library.Bounded references size) {from_ last : Resolved}
    (h : Walked start references size from_)
    (hwalk : Relation.ReflTransGen library.HopsTo from_ last) :
    Walked start references size last := by
  induction hwalk with
  | refl => exact h
  | tail _ hstep ih => exact walked_of_hopsTo hlibrary ih hstep

/-- A walk that goes on meets keys. -/
theorem eq_or_length_chain_lt {from_ last : Resolved}
    (h : Relation.ReflTransGen library.HopsTo from_ last) :
    last = from_ ∨ from_.chain.length < last.chain.length := by
  induction h with
  | refl => exact Or.inl rfl
  | tail _ hstep ih =>
    right
    rw [length_chain_of_hopsTo hstep]
    rcases ih with rfl | hlt
    · exact Nat.lt_succ_self _
    · omega

/-- **Following references ends**: a walk that may make more steps than there are keys is never cut
off. -/
theorem genuine_follow (hlibrary : library.Bounded references size) {hops : Nat} {from_ : Resolved}
    (h : Walked start references size from_)
    (hhops : (SchemaReference.keys start references).length < from_.chain.length + hops) :
    Genuine (library.follow hops from_) := by
  intro chain hfollow
  obtain ⟨last, hwalk, hfails | ⟨-, hlength⟩⟩ := follow_eq_error hfollow
  · cases hfails with
    | hop href hhop =>
      obtain ⟨target, pointer, -, hmet, rfl⟩ := hop_eq_circular hlibrary.read_ne hhop
      exact fun hnodup => (Entries.nodup_keys_concat.1 hnodup).1 hmet
  · have := (walked_of_walk hlibrary h hwalk).length_le
    omega

theorem hop_congr {library' : Library (Except SchemaError)} (h : library.read = library'.read) :
    library.hop = library'.hop := by
  funext from_ reference
  rw [hop, hop, h]

/-- How many more steps a walk may make does not matter. -/
theorem follow_congr {library' : Library (Except SchemaError)}
    (hread : library.read = library'.read) (hlibrary : library.Bounded references size)
    {hops hops' : Nat} {from_ : Resolved} (h : Walked start references size from_)
    (hhops : (SchemaReference.keys start references).length < from_.chain.length + hops)
    (hhops' : (SchemaReference.keys start references).length < from_.chain.length + hops') :
    library.follow hops from_ = library'.follow hops' from_ := by
  induction hops generalizing hops' from_ with
  | zero =>
    have := h.length_le
    omega
  | succ hops ih =>
    have := h.length_le
    obtain ⟨hops', rfl⟩ : ∃ rest, hops' = rest + 1 := ⟨hops' - 1, by omega⟩
    rcases get?_ref_cases from_.schema with href | ⟨reference, href⟩ | ⟨value, href, hvalue⟩
    · rw [follow_of_get?_eq_none href, follow_of_get?_eq_none href]
    · rw [follow_succ href, follow_succ href, hop_congr hread]
      cases hhop : library'.hop from_ reference with
      | error e => rfl
      | ok next =>
        have hstep : library.HopsTo from_ next := ⟨reference, href, hop_congr hread ▸ hhop⟩
        have hlength := length_chain_of_hopsTo hstep
        exact ih (walked_of_hopsTo hlibrary h hstep) (by omega) (by omega)
    · rw [follow_of_not_text href hvalue, follow_of_not_text href hvalue]

end Library

end TableExport
