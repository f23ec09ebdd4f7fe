import TableExport.Proofs.Entries
import TableExport.Proofs.Results
import TableExport.Schema.Resolution

/-!
# Resolving a node

The references of a node are followed one by one. `HopsTo` is one such step, and `hop_eq_ok` says
what it does. A walk that succeeds ends at a node without a reference (`follow_eq_ok`); one that
fails ends at a node whose reference leads nowhere, unless it has made all the steps that its bound
lets it make (`follow_eq_error`).

The documents are those of a `Library` whose reads give the same answer at all times, such as
`Library.ofDocuments`.
-/

namespace TableExport

/-- A reported circle has a key that is met twice. A walk that its bound cuts off reports different
keys instead, so a genuine report is no sign of a bound that is too small. -/
def Genuine {α : Type} (result : Except SchemaError α) : Prop :=
  ∀ chain, result = .error (.circularReference chain) → ¬ chain.Nodup

namespace Library

/-- A library of fixed documents. -/
def ofDocuments (documents : Entries Json) (bound : Nat) : Library (Except SchemaError) where
  read name :=
    match documents.get? name with
    | some document => .ok document
    | none => .error (.unreadable name)
  bound := bound

/-- What is read is one of the documents. -/
theorem mem_of_read_ofDocuments {documents : Entries Json} {bound : Nat} {name : String}
    {root : Json} (h : (ofDocuments documents bound).read name = .ok root) :
    (name, root) ∈ documents := by
  cases hget : documents.get? name with
  | none =>
    simp only [ofDocuments, hget] at h
    cases h
  | some document =>
    simp only [ofDocuments, hget] at h
    cases h
    exact Entries.mem_of_get? hget

theorem read_ofDocuments_ne_circular (documents : Entries Json) (bound : Nat) (name : String)
    (chain : List String) :
    (ofDocuments documents bound).read name ≠ .error (.circularReference chain) := by
  intro h
  cases hget : documents.get? name with
  | none =>
    simp only [ofDocuments, hget] at h
    cases h
  | some document =>
    simp only [ofDocuments, hget] at h
    cases h

variable {library : Library (Except SchemaError)}

/-- What one hop does when it succeeds. -/
theorem hop_eq_ok {from_ next : Resolved} {reference : String}
    (h : library.hop from_ reference = .ok next) :
    ∃ target pointer root,
      SchemaReference.split? reference = some (target, pointer) ∧
      next.document = (if target.isEmpty then from_.document else target) ∧
      SchemaReference.key next.document pointer ∉ from_.chain ∧
      library.read next.document = .ok root ∧ Pointer.lookup root pointer = .ok next.schema ∧
      next.chain = from_.chain ++ [SchemaReference.key next.document pointer] := by
  rw [hop] at h
  cases hsplit : SchemaReference.split? reference with
  | none =>
    rw [hsplit] at h
    cases h
  | some parts =>
    obtain ⟨target, pointer⟩ := parts
    rw [hsplit] at h
    simp only at h
    generalize hname : (if target.isEmpty then from_.document else target) = name at h
    split at h
    · cases h
    · rename_i hnew
      obtain ⟨root, hroot, h⟩ := bind_eq_ok.1 h
      cases hlookup : Pointer.lookup root pointer with
      | error segment =>
        rw [hlookup] at h
        cases h
      | ok schema =>
        rw [hlookup] at h
        cases h
        exact ⟨target, pointer, root, rfl, hname.symm, by simpa using hnew, hroot, hlookup, rfl⟩

/-- A hop that reports a circle has met the key at its end before. -/
theorem hop_eq_circular
    (hread : ∀ name chain, library.read name ≠ .error (.circularReference chain)) {from_ : Resolved}
    {reference : String} {chain : List String}
    (h : library.hop from_ reference = .error (.circularReference chain)) :
    ∃ target pointer, SchemaReference.split? reference = some (target, pointer) ∧
      SchemaReference.key (if target.isEmpty then from_.document else target) pointer ∈
        from_.chain ∧
      chain = from_.chain ++
        [SchemaReference.key (if target.isEmpty then from_.document else target) pointer] := by
  rw [hop] at h
  cases hsplit : SchemaReference.split? reference with
  | none =>
    rw [hsplit] at h
    cases h
  | some parts =>
    obtain ⟨target, pointer⟩ := parts
    rw [hsplit] at h
    simp only at h
    refine ⟨target, pointer, rfl, ?_⟩
    generalize (if target.isEmpty then from_.document else target) = name at h ⊢
    split at h
    · rename_i hmet
      cases h
      exact ⟨by simpa using hmet, rfl⟩
    · cases hroot : library.read name with
      | error e =>
        rw [hroot] at h
        cases h
        exact absurd hroot (hread name chain)
      | ok root =>
        rw [hroot] at h
        simp only [bind, Except.bind] at h
        split at h <;> cases h

/-! ## One reference after the other -/

variable {hops : Nat} {from_ last : Resolved}

theorem follow_of_get?_eq_none (h : from_.schema.get? "$ref" = none) :
    library.follow hops from_ = .ok from_ := by
  rw [follow.eq_def, h]
  rfl

theorem follow_of_not_text {value : Json} (h : from_.schema.get? "$ref" = some value)
    (hvalue : value.str? = none) :
    library.follow hops from_ = .error (.invalidReference value.compact) := by
  rw [follow.eq_def, h]
  cases value with
  | str reference => cases hvalue
  | _ => rfl

theorem follow_zero {reference : String} (h : from_.schema.get? "$ref" = some (.str reference)) :
    library.follow 0 from_ = .error (.circularReference from_.chain) := by
  rw [follow.eq_def, h]
  rfl

theorem follow_succ {reference : String} (h : from_.schema.get? "$ref" = some (.str reference)) :
    library.follow (hops + 1) from_ = library.hop from_ reference >>= library.follow hops := by
  rw [follow.eq_def, h]

/-- A node has no reference, one that is a text, or one that is not. -/
theorem get?_ref_cases (node : Json) : node.get? "$ref" = none ∨
    (∃ reference, node.get? "$ref" = some (.str reference)) ∨
    ∃ value, node.get? "$ref" = some value ∧ value.str? = none := by
  cases href : node.get? "$ref" with
  | none => exact Or.inl rfl
  | some value =>
    cases value with
    | str reference => exact Or.inr (Or.inl ⟨reference, rfl⟩)
    | _ => exact Or.inr (Or.inr ⟨_, rfl, rfl⟩)

/-- One reference is followed. -/
def HopsTo (library : Library (Except SchemaError)) (from_ next : Resolved) : Prop :=
  ∃ reference, from_.schema.get? "$ref" = some (.str reference) ∧
    library.hop from_ reference = .ok next

/-- Why a node's reference leads nowhere. -/
inductive FailsAt (library : Library (Except SchemaError)) (last : Resolved) : SchemaError → Prop
  /-- It is no text. -/
  | notText {value : Json} : last.schema.get? "$ref" = some value → value.str? = none →
    FailsAt library last (.invalidReference value.compact)
  /-- It cannot be followed. -/
  | hop {reference : String} {e : SchemaError} :
    last.schema.get? "$ref" = some (.str reference) → library.hop last reference = .error e →
    FailsAt library last e

theorem length_chain_of_hopsTo {next : Resolved} (h : library.HopsTo from_ next) :
    next.chain.length = from_.chain.length + 1 := by
  obtain ⟨reference, -, hhop⟩ := h
  obtain ⟨_, _, _, -, -, -, -, -, hchain⟩ := hop_eq_ok hhop
  rw [hchain, List.length_append]
  rfl

/-- A step meets a new key. -/
theorem nodup_chain_of_walk (h : Relation.ReflTransGen library.HopsTo from_ last)
    (hnodup : from_.chain.Nodup) : last.chain.Nodup := by
  induction h with
  | refl => exact hnodup
  | tail _ hstep ih =>
    obtain ⟨reference, -, hhop⟩ := hstep
    obtain ⟨_, _, _, -, -, hnew, -, -, hchain⟩ := hop_eq_ok hhop
    rw [hchain]
    exact Entries.nodup_keys_concat.2 ⟨hnew, ih⟩

/-- **A walk that succeeds ends at a node without a reference.** -/
theorem follow_eq_ok (h : library.follow hops from_ = .ok last) :
    Relation.ReflTransGen library.HopsTo from_ last ∧ last.schema.get? "$ref" = none := by
  induction hops generalizing from_ with
  | zero =>
    rcases get?_ref_cases from_.schema with href | ⟨reference, href⟩ | ⟨value, href, hvalue⟩
    · rw [follow_of_get?_eq_none href] at h
      cases h
      exact ⟨Relation.ReflTransGen.refl, href⟩
    · rw [follow_zero href] at h
      cases h
    · rw [follow_of_not_text href hvalue] at h
      cases h
  | succ hops ih =>
    rcases get?_ref_cases from_.schema with href | ⟨reference, href⟩ | ⟨value, href, hvalue⟩
    · rw [follow_of_get?_eq_none href] at h
      cases h
      exact ⟨Relation.ReflTransGen.refl, href⟩
    · rw [follow_succ href] at h
      obtain ⟨next, hnext, h⟩ := bind_eq_ok.1 h
      exact ⟨Relation.ReflTransGen.head ⟨reference, href, hnext⟩ (ih h).1, (ih h).2⟩
    · rw [follow_of_not_text href hvalue] at h
      cases h

/-- **A walk that fails ends at a node whose reference leads nowhere**, or has made as many steps as
it may. -/
theorem follow_eq_error {e : SchemaError} (h : library.follow hops from_ = .error e) :
    ∃ last, Relation.ReflTransGen library.HopsTo from_ last ∧
      (FailsAt library last e ∨
        e = .circularReference last.chain ∧ last.chain.length = from_.chain.length + hops) := by
  induction hops generalizing from_ with
  | zero =>
    rcases get?_ref_cases from_.schema with href | ⟨reference, href⟩ | ⟨value, href, hvalue⟩
    · rw [follow_of_get?_eq_none href] at h
      cases h
    · rw [follow_zero href] at h
      cases h
      exact ⟨from_, Relation.ReflTransGen.refl, Or.inr ⟨rfl, rfl⟩⟩
    · rw [follow_of_not_text href hvalue] at h
      cases h
      exact ⟨from_, Relation.ReflTransGen.refl, Or.inl (FailsAt.notText href hvalue)⟩
  | succ hops ih =>
    rcases get?_ref_cases from_.schema with href | ⟨reference, href⟩ | ⟨value, href, hvalue⟩
    · rw [follow_of_get?_eq_none href] at h
      cases h
    · rw [follow_succ href] at h
      cases hhop : library.hop from_ reference with
      | error e' =>
        rw [hhop] at h
        cases h
        exact ⟨from_, Relation.ReflTransGen.refl, Or.inl (FailsAt.hop href hhop)⟩
      | ok next =>
        rw [hhop] at h
        have hstep : library.HopsTo from_ next := ⟨reference, href, hhop⟩
        obtain ⟨last, hwalk, hlast⟩ := ih h
        refine ⟨last, Relation.ReflTransGen.head hstep hwalk, hlast.imp_right ?_⟩
        rintro ⟨he, hlength⟩
        rw [length_chain_of_hopsTo hstep] at hlength
        exact ⟨he, by omega⟩
    · rw [follow_of_not_text href hvalue] at h
      cases h
      exact ⟨from_, Relation.ReflTransGen.refl, Or.inl (FailsAt.notText href hvalue)⟩

/-! ## Resolved nodes -/

/-- A node without a reference is resolved already. -/
theorem resolve_of_get?_eq_none {node : Json} (h : node.get? "$ref" = none) (document : String) :
    library.resolve document node = .ok ⟨document, node, none, []⟩ :=
  follow_of_get?_eq_none h

/-- What a node is resolved to has no reference. -/
theorem get?_ref_of_resolve {document : String} {node : Json} {resolved : Resolved}
    (h : library.resolve document node = .ok resolved) : resolved.schema.get? "$ref" = none :=
  (follow_eq_ok h).2

/-- A node is entered when none of the nodes that it refers to is active. -/
theorem enter_eq_ok {document : String} {node : Json} {active : List String}
    {resolved : Resolved} :
    library.enter document node active = .ok resolved ↔
      library.resolve document node = .ok resolved ∧ ∀ key ∈ resolved.chain, key ∉ active := by
  rw [enter, bind_eq_ok]
  constructor
  · rintro ⟨found, hfound, h⟩
    cases hfind : found.chain.find? (active.contains ·) with
    | some key =>
      rw [hfind] at h
      cases h
    | none =>
      rw [hfind] at h
      cases h
      refine ⟨hfound, fun key hk => ?_⟩
      simpa using List.find?_eq_none.1 hfind key hk
  · rintro ⟨hresolve, hactive⟩
    refine ⟨resolved, hresolve, ?_⟩
    have hfind : resolved.chain.find? (active.contains ·) = none := by
      rw [List.find?_eq_none]
      intro key hk
      simpa using hactive key hk
    rw [hfind]
    rfl

/-- Fewer active nodes are entered more easily. -/
theorem enter_of_subset {document : String} {node : Json} {active active' : List String}
    {resolved : Resolved} (h : library.enter document node active = .ok resolved)
    (hsub : active' ⊆ active) : library.enter document node active' = .ok resolved := by
  rw [enter_eq_ok] at h ⊢
  exact ⟨h.1, fun key hk hactive => h.2 key hk (hsub hactive)⟩

end Library

end TableExport
