import TableExport.Proofs.Schema.Places
import TableExport.Proofs.Schema.References

/-!
# Walks through schemas

A schema is walked through by resolving a node, going on with the nodes below what it is resolved
to, and so on, with the keys that were met on the way down kept as active. `IsWalk` says so of a
recursion, whatever it makes of a schema. Of every walk it follows:

* `IsWalk.genuine`: with a bound that is large enough for the documents a walk is never cut off, and
  `IsWalk.congr_of_room`: a larger bound changes nothing. As long as a node has no reference the
  nodes below get smaller, and a reference makes a new key active.
* `IsWalk.loops`: a reported circle is a place that is reached again below itself.
* `IsWalk.not_endless`: a walk that succeeds has nowhere to go on forever.
-/

namespace TableExport

namespace Library

variable {library : Library (Except SchemaError)}

/-! ## Entering a node -/

section Enter

variable {start : String} {references : List String} {size : Nat} {document : String} {node : Json}
  {active : List String}

theorem walked_start (h : Inside start references size document node) :
    Walked start references size ⟨document, node, none, []⟩ :=
  ⟨h, List.nodup_nil, List.nil_subset _⟩

/-- What is known of a node that is entered: it is one of the given places, its keys are new, and
without a key it is the node itself. -/
theorem walked_of_enter (hlibrary : library.Bounded references size)
    (h : Inside start references size document node) {resolved : Resolved}
    (henter : library.enter document node active = .ok resolved) :
    Walked start references size resolved ∧ (∀ key ∈ resolved.chain, key ∉ active) ∧
      (resolved.chain = [] → resolved.document = document ∧ resolved.schema = node) := by
  obtain ⟨hresolve, hactive⟩ := enter_eq_ok.1 henter
  have hwalk := (follow_eq_ok hresolve).1
  refine ⟨walked_of_walk hlibrary (walked_start h) hwalk, hactive, fun hchain => ?_⟩
  rcases eq_or_length_chain_lt hwalk with rfl | hlt
  · exact ⟨rfl, rfl⟩
  · rw [hchain] at hlt
    exact absurd hlt (Nat.not_lt_zero _)

theorem genuine_resolve (hlibrary : library.Bounded references size)
    (h : Inside start references size document node)
    (hbound : (SchemaReference.keys start references).length < library.bound) :
    Genuine (library.resolve document node) :=
  genuine_follow hlibrary (walked_start h) (by simpa using hbound)

/-- A circle that is reported on entering a node is one of its references, or an active node. -/
theorem enter_eq_circular {chain : List String}
    (h : library.enter document node active = .error (.circularReference chain)) :
    library.resolve document node = .error (.circularReference chain) ∨
      ∃ resolved key, library.resolve document node = .ok resolved ∧ key ∈ resolved.chain ∧
        key ∈ active ∧ chain = active ++ [key] := by
  rw [enter] at h
  cases hresolve : library.resolve document node with
  | error e =>
    rw [hresolve] at h
    cases h
    exact Or.inl rfl
  | ok resolved =>
    rw [hresolve] at h
    simp only [bind, Except.bind] at h
    cases hfind : resolved.chain.find? (active.contains ·) with
    | none =>
      rw [hfind] at h
      cases h
    | some key =>
      rw [hfind] at h
      cases h
      exact Or.inr ⟨resolved, key, rfl, List.mem_of_find?_eq_some hfind,
        by simpa using List.find?_some hfind, rfl⟩

theorem genuine_enter (hlibrary : library.Bounded references size)
    (h : Inside start references size document node)
    (hbound : (SchemaReference.keys start references).length < library.bound) :
    Genuine (library.enter document node active) := by
  intro chain henter
  rcases enter_eq_circular henter with hresolve | ⟨_, key, -, -, hkey, rfl⟩
  · exact genuine_resolve hlibrary h hbound chain hresolve
  · exact fun hnodup => (Entries.nodup_keys_concat.1 hnodup).1 hkey

theorem resolve_congr {library' : Library (Except SchemaError)}
    (hread : library.read = library'.read) (hlibrary : library.Bounded references size)
    (h : Inside start references size document node)
    (hbound : (SchemaReference.keys start references).length < library.bound)
    (hbound' : (SchemaReference.keys start references).length < library'.bound) :
    library.resolve document node = library'.resolve document node :=
  follow_congr hread hlibrary (walked_start h) (by simpa using hbound) (by simpa using hbound')

theorem enter_congr {library' : Library (Except SchemaError)}
    (h : library.resolve document node = library'.resolve document node) :
    library.enter document node active = library'.enter document node active := by
  rw [enter, enter, h]

end Enter

/-! ## Where a walk goes -/

/-- From a place a walk goes along its reference, or if it has none to a node below it. -/
def Expands (library : Library (Except SchemaError)) (children : Json → List Json)
    (place next : SchemaPlace) : Prop :=
  library.Refers place next ∨
    place.node.get? "$ref" = none ∧ next.node ∈ children place.node ∧ next.document = place.document

/-- A walk can go on forever. -/
def Endless (library : Library (Except SchemaError)) (children : Json → List Json)
    (place : SchemaPlace) : Prop :=
  ∃ path : Nat → SchemaPlace, path 0 = place ∧ ∀ i, library.Expands children (path i) (path (i + 1))

/-- A walk reaches a node of a document again below itself. -/
def Loops (library : Library (Except SchemaError)) (children : Json → List Json)
    (place : SchemaPlace) : Prop :=
  ∃ again pointer, library.At again pointer ∧
    Relation.ReflTransGen (library.Expands children) place again ∧
    Relation.TransGen (library.Expands children) again again

/-- The nodes below a node are smaller and have no other references. -/
def Shrinks (children : Json → List Json) : Prop :=
  ∀ schema, ∀ child ∈ children schema, child.Within schema ∧ child.size < schema.size

section Expands

variable {children : Json → List Json}

theorem expands_of_refers {place next : SchemaPlace}
    (h : Relation.ReflTransGen library.Refers place next) :
    Relation.ReflTransGen (library.Expands children) place next :=
  Relation.ReflTransGen.mono (fun _ _ hstep => Or.inl hstep) _ _ h

theorem Loops.of_walk {place next : SchemaPlace}
    (hwalk : Relation.ReflTransGen (library.Expands children) place next)
    (h : library.Loops children next) : library.Loops children place := by
  obtain ⟨again, pointer, hat, hagain, hloop⟩ := h
  exact ⟨again, pointer, hat, hwalk.trans hagain, hloop⟩

/-- A path that goes on forever passes the end of the references of its place. -/
theorem Endless.resolved {place last : SchemaPlace}
    (hwalk : Relation.ReflTransGen library.Refers place last)
    (h : library.Endless children place) : library.Endless children last := by
  induction hwalk using Relation.ReflTransGen.head_induction_on with
  | refl => exact h
  | head hstep _ ih =>
    obtain ⟨path, hfirst, hpath⟩ := h
    refine ih ⟨fun i => path (i + 1), ?_, fun i => hpath (i + 1)⟩
    rcases hpath 0 with hrefers | ⟨href, -, -⟩
    · rw [hfirst] at hrefers
      exact refers_rightUnique hrefers hstep
    · rw [hfirst] at href
      exact absurd href hstep.get?_ne_none

/-- From a node without a reference it goes on below. -/
theorem Endless.descend {place : SchemaPlace} (h : library.Endless children place)
    (href : place.node.get? "$ref" = none) :
    ∃ child ∈ children place.node, library.Endless children ⟨place.document, child⟩ := by
  obtain ⟨path, hfirst, hpath⟩ := h
  rcases hpath 0 with hrefers | ⟨-, hchild, hdocument⟩
  · rw [hfirst] at hrefers
    exact absurd href hrefers.get?_ne_none
  · rw [hfirst] at hchild hdocument
    refine ⟨(path 1).node, hchild, fun i => path (i + 1), ?_, fun i => hpath (i + 1)⟩
    rw [← hdocument]

/-- A walk that reaches a node again below itself can go on forever. -/
theorem Loops.endless {place : SchemaPlace} (h : library.Loops children place) :
    library.Endless children place := by
  obtain ⟨again, -, -, hagain, hloop⟩ := h
  -- from every place that leads to the circle there is a step to another one
  have hnext : ∀ from_ : {from_ // Relation.ReflTransGen (library.Expands children) from_ again},
      ∃ next : {next // Relation.ReflTransGen (library.Expands children) next again},
        library.Expands children from_.1 next.1 := by
    rintro ⟨from_, hway⟩
    rcases hway.cases_head with rfl | ⟨next, hstep, hway⟩
    · obtain ⟨next, hstep, hway⟩ := Relation.TransGen.head'_iff.1 hloop
      exact ⟨⟨next, hway⟩, hstep⟩
    · exact ⟨⟨next, hway⟩, hstep⟩
  choose next hstep using hnext
  refine ⟨fun i => (next^[i] ⟨place, hagain⟩).1, rfl, fun i => ?_⟩
  simp only [Function.iterate_succ_apply']
  exact hstep _

end Expands

/-! ## Going on with several nodes -/

/-- A result that is made of those at some nodes: there is one only if there is one at each of them,
and a circle that is reported is reported at one of them. -/
structure Visits {α β γ : Type} (change : β → Json → Except SchemaError α) (nodes : List Json)
    (result : Except SchemaError γ) : Prop where
  ok {value : γ} : result = .ok value → ∀ node ∈ nodes, ∃ b a, change b node = .ok a
  circular {chain : List String} : result = .error (.circularReference chain) →
    ∃ node ∈ nodes, ∃ b, change b node = .error (.circularReference chain)

namespace Visits

variable {α β γ δ : Type} {change : β → Json → Except SchemaError α} {nodes others : List Json}

theorem pure (value : γ) : Visits change [] (.ok value) :=
  ⟨fun _ node hnode => absurd hnode List.not_mem_nil, fun h => by cases h⟩

theorem throw {e : SchemaError} (h : ∀ chain, e ≠ .circularReference chain) :
    Visits change nodes (.error e : Except SchemaError γ) := by
  refine ⟨fun hok => ?_, fun {chain} hcircular => ?_⟩
  · cases hok
  · cases hcircular
    exact absurd rfl (h chain)

theorem call (b : β) (node : Json) : Visits change [node] (change b node) :=
  ⟨fun {value} h other ho => ⟨b, value, by rw [List.mem_singleton.1 ho, h]⟩,
    fun h => ⟨node, List.mem_singleton_self node, b, h⟩⟩

theorem bind {first : Except SchemaError γ} {next : γ → Except SchemaError δ}
    (hfirst : Visits change nodes first) (hnext : ∀ value, Visits change others (next value)) :
    Visits change (nodes ++ others) (first >>= next) := by
  cases first with
  | error e =>
    refine ⟨fun h => ?_, fun {chain} h => ?_⟩
    · cases h
    · cases h
      obtain ⟨node, hnode, hchange⟩ := hfirst.circular rfl
      exact ⟨node, List.mem_append_left _ hnode, hchange⟩
  | ok value =>
    refine ⟨fun {result} h node hnode => ?_, fun {chain} h => ?_⟩
    · rcases List.mem_append.1 hnode with hnode | hnode
      · exact hfirst.ok rfl node hnode
      · exact (hnext value).ok (show next value = .ok result from h) node hnode
    · obtain ⟨node, hnode, hchange⟩ :=
        (hnext value).circular (show next value = .error (.circularReference chain) from h)
      exact ⟨node, List.mem_append_right _ hnode, hchange⟩

/-- What is made of a result goes on with no other nodes. -/
theorem finish {first : Except SchemaError γ} {next : γ → Except SchemaError δ}
    (hfirst : Visits change nodes first)
    (hnext : ∀ value chain, next value ≠ .error (.circularReference chain)) :
    Visits change nodes (first >>= next) := by
  rw [← List.append_nil nodes]
  exact hfirst.bind fun value => ⟨fun _ node hnode => absurd hnode List.not_mem_nil,
    fun {chain} h => absurd h (hnext value chain)⟩

theorem map {first : Except SchemaError γ} (hfirst : Visits change nodes first) (f : γ → δ) :
    Visits change nodes (first >>= fun value => .ok (f value)) :=
  hfirst.finish fun _ _ h => by cases h

end Visits

/-! ## Walks -/

/-- A recursion through schemas: it enters a node, and `combine` makes its result of those at the
nodes below. -/
structure IsWalk {α β : Type} (children : Json → List Json)
    (run : Library (Except SchemaError) → Nat → β → String → Json → List String →
      Except SchemaError α)
    (combine : (β → Json → Except SchemaError α) → β → Resolved → Except SchemaError α) : Prop where
  zero (library : Library (Except SchemaError)) (b : β) (document : String) (node : Json)
    (active : List String) :
    run library 0 b document node active = .error (.circularReference active)
  succ (library : Library (Except SchemaError)) (depth : Nat) (b : β) (document : String)
    (node : Json) (active : List String) :
    run library (depth + 1) b document node active =
      library.enter document node active >>= fun resolved =>
        combine (fun b child => run library depth b resolved.document child
          (active ++ resolved.chain)) b resolved
  visits (change : β → Json → Except SchemaError α) (b : β) (resolved : Resolved) :
    Visits change (children resolved.schema) (combine change b resolved)
  congr {change change' : β → Json → Except SchemaError α} (b : β) {resolved : Resolved} :
    (∀ b, ∀ child ∈ children resolved.schema, change b child = change' b child) →
    combine change b resolved = combine change' b resolved

/-! ### Room -/

section Room

variable {start : String} {references : List String} {size : Nat} {children : Json → List Json}

/-- How deep a walk can go at most: for each key that is not yet active down a whole document, and
from its node down. -/
def room (start : String) (references : List String) (size : Nat) (active : List String)
    (node : Json) : Nat :=
  ((SchemaReference.keys start references).length - active.length) * (size + 1) + node.size

/-- Below a node there is less room. -/
theorem room_lt (hlibrary : library.Bounded references size) (hshrinks : Shrinks children)
    {document : String} {node child : Json} {active : List String}
    (h : Inside start references size document node) (hnodup : active.Nodup)
    (hsub : active ⊆ SchemaReference.keys start references) {resolved : Resolved}
    (henter : library.enter document node active = .ok resolved)
    (hchild : child ∈ children resolved.schema) :
    Inside start references size resolved.document child ∧ (active ++ resolved.chain).Nodup ∧
      active ++ resolved.chain ⊆ SchemaReference.keys start references ∧
      room start references size (active ++ resolved.chain) child <
        room start references size active node := by
  obtain ⟨hwalked, hnew, hsame⟩ := walked_of_enter hlibrary h henter
  obtain ⟨hwithin, hlt⟩ := hshrinks _ _ hchild
  have hnodup' : (active ++ resolved.chain).Nodup :=
    List.nodup_append.2 ⟨hnodup, hwalked.nodup, fun a ha b hb heq => hnew b hb (heq ▸ ha)⟩
  have hsub' : active ++ resolved.chain ⊆ SchemaReference.keys start references :=
    List.append_subset.2 ⟨hsub, hwalked.subset⟩
  refine ⟨hwalked.inside.part hwithin, hnodup', hsub', ?_⟩
  have hlength := (hnodup'.subperm hsub').length_le
  have hsize := hwalked.inside.size
  rw [List.length_append] at hlength
  rw [room, room, List.length_append]
  rcases Nat.eq_zero_or_pos resolved.chain.length with hzero | hpos
  · rw [(hsame (List.eq_nil_of_length_eq_zero hzero)).2] at hlt
    rw [hzero, Nat.add_zero]
    omega
  · -- a new key makes up for all that a node below its place can be larger
    obtain ⟨rest, hrest⟩ : ∃ rest, (SchemaReference.keys start references).length =
        active.length + resolved.chain.length + rest := ⟨_, (Nat.add_sub_cancel' hlength).symm⟩
    rw [hrest, Nat.add_sub_cancel_left, Nat.add_assoc, Nat.add_sub_cancel_left]
    have hle : (rest + 1) * (size + 1) ≤ (resolved.chain.length + rest) * (size + 1) :=
      Nat.mul_le_mul_right _ (by omega)
    rw [Nat.succ_mul] at hle
    omega

end Room

namespace IsWalk

variable {α β : Type} {children : Json → List Json}
  {run : Library (Except SchemaError) → Nat → β → String → Json → List String →
    Except SchemaError α}
  {combine : (β → Json → Except SchemaError α) → β → Resolved → Except SchemaError α}
  {depth : Nat} {b : β} {document : String} {node : Json} {active : List String}

/-- A walk that succeeds enters its node and succeeds below. -/
theorem ok_below (hwalk : IsWalk children run combine) {a : α}
    (h : run library (depth + 1) b document node active = .ok a) :
    ∃ resolved, library.enter document node active = .ok resolved ∧
      ∀ child ∈ children resolved.schema, ∃ b' a',
        run library depth b' resolved.document child (active ++ resolved.chain) = .ok a' := by
  rw [hwalk.succ] at h
  obtain ⟨resolved, henter, h⟩ := bind_eq_ok.1 h
  exact ⟨resolved, henter, (hwalk.visits _ b resolved).ok h⟩

/-- A circle that a walk reports is found on entering its node, or reported below. -/
theorem circular_below (hwalk : IsWalk children run combine) {chain : List String}
    (h : run library (depth + 1) b document node active = .error (.circularReference chain)) :
    library.enter document node active = .error (.circularReference chain) ∨
      ∃ resolved, library.enter document node active = .ok resolved ∧
        ∃ child ∈ children resolved.schema, ∃ b',
          run library depth b' resolved.document child (active ++ resolved.chain) =
            .error (.circularReference chain) := by
  rw [hwalk.succ] at h
  cases henter : library.enter document node active with
  | error e =>
    rw [henter] at h
    cases h
    exact Or.inl rfl
  | ok resolved =>
    rw [henter] at h
    exact Or.inr ⟨resolved, rfl, (hwalk.visits _ b resolved).circular h⟩

/-- **A walk that succeeds has nowhere to go on forever.** -/
theorem not_endless (hwalk : IsWalk children run combine) (b : β) {a : α}
    (h : run library depth b document node active = .ok a) :
    ¬ library.Endless children ⟨document, node⟩ := by
  induction depth generalizing b document node active a with
  | zero =>
    rw [hwalk.zero] at h
    cases h
  | succ depth ih =>
    intro hendless
    obtain ⟨resolved, henter, hbelow⟩ := hwalk.ok_below h
    obtain ⟨hhops, href⟩ := follow_eq_ok (enter_eq_ok.1 henter).1
    have hresolved := hendless.resolved (places_of_walk hhops rfl (Or.inr rfl)).1
    obtain ⟨child, hchild, hendless'⟩ := hresolved.descend href
    obtain ⟨_, _, hok⟩ := hbelow child hchild
    exact ih _ hok hendless'

section Ends

variable {start : String} {references : List String} {size : Nat}

/-- **A walk with enough room is never cut off.** -/
theorem genuine (hwalk : IsWalk children run combine) (hlibrary : library.Bounded references size)
    (hshrinks : Shrinks children)
    (hbound : (SchemaReference.keys start references).length < library.bound)
    (h : Inside start references size document node) (hnodup : active.Nodup)
    (hsub : active ⊆ SchemaReference.keys start references)
    (hroom : room start references size active node < depth) :
    Genuine (run library depth b document node active) := by
  induction depth generalizing b document node active with
  | zero => exact absurd hroom (Nat.not_lt_zero _)
  | succ depth ih =>
    intro chain hrun
    rcases hwalk.circular_below hrun with henter | ⟨resolved, henter, child, hchild, _, hbelow⟩
    · exact genuine_enter hlibrary h hbound chain henter
    · obtain ⟨hinside, hnodup', hsub', hlt⟩ :=
        room_lt hlibrary hshrinks h hnodup hsub henter hchild
      exact ih hinside hnodup' hsub' (by omega) chain hbelow

/-- **A larger bound changes nothing**: with enough room a walk ends by itself. -/
theorem congr_of_room (hwalk : IsWalk children run combine)
    {library' : Library (Except SchemaError)} (hread : library.read = library'.read)
    (hlibrary : library.Bounded references size) (hshrinks : Shrinks children)
    (hbound : (SchemaReference.keys start references).length < library.bound)
    (hbound' : (SchemaReference.keys start references).length < library'.bound)
    (h : Inside start references size document node) (hnodup : active.Nodup)
    (hsub : active ⊆ SchemaReference.keys start references) {depth' : Nat}
    (hroom : room start references size active node < depth)
    (hroom' : room start references size active node < depth') :
    run library depth b document node active = run library' depth' b document node active := by
  induction depth generalizing depth' b document node active with
  | zero => exact absurd hroom (Nat.not_lt_zero _)
  | succ depth ih =>
    obtain ⟨depth', rfl⟩ : ∃ rest, depth' = rest + 1 := ⟨depth' - 1, by omega⟩
    rw [hwalk.succ, hwalk.succ,
      ← enter_congr (resolve_congr hread hlibrary h hbound hbound')]
    cases henter : library.enter document node active with
    | error e => rfl
    | ok resolved =>
      refine hwalk.congr b fun b' child hchild => ?_
      obtain ⟨hinside, hnodup', hsub', hlt⟩ :=
        room_lt hlibrary hshrinks h hnodup hsub henter hchild
      exact ih hinside hnodup' hsub' (by omega) (by omega)

end Ends

/-- **A reported circle is a place that is reached again below itself.** The active keys are those
of places on the way from the start. -/
theorem loops_of_active (hwalk : IsWalk children run combine) {home : String}
    (hhome : SchemaReference.PlainName home)
    (hread : ∀ name chain, library.read name ≠ .error (.circularReference chain))
    {chain : List String} {start : SchemaPlace} (hname : SchemaReference.NameOn home document)
    (hnodup : active.Nodup)
    (hstart : Relation.ReflTransGen (library.Expands children) start ⟨document, node⟩)
    (hactive : ∀ key ∈ active, ∃ place, library.Met home key place ∧
      Relation.ReflTransGen (library.Expands children) start place ∧
      Relation.TransGen (library.Expands children) place ⟨document, node⟩)
    (h : run library depth b document node active = .error (.circularReference chain))
    (hgenuine : ¬ chain.Nodup) : library.Loops children start := by
  induction depth generalizing b document node active with
  | zero =>
    rw [hwalk.zero] at h
    cases h
    exact absurd hnodup hgenuine
  | succ depth ih =>
    rcases hwalk.circular_below h with henter | ⟨resolved, henter, child, hchild, _, hbelow⟩
    · rcases enter_eq_circular henter with hresolve | ⟨resolved, key, hresolve, hkey, hmem, -⟩
      · obtain ⟨place, pointer, hat, hplace, hloop⟩ :=
          exists_loop_of_resolve hhome hread hname hresolve hgenuine
        exact ⟨place, pointer, hat, hstart.trans (expands_of_refers hplace),
          Relation.TransGen.mono (fun _ _ hstep => Or.inl hstep) _ _ hloop⟩
      · obtain ⟨-, -, hplaces⟩ := places_of_walk (follow_eq_ok hresolve).1 rfl hname
        obtain ⟨place, hmet, hplace, -⟩ := hplaces key hkey
        obtain ⟨other, hother, hway, hdown⟩ := hactive key hmem
        obtain rfl := hmet.unique hhome hother
        obtain ⟨pointer, -, -, -, hat⟩ := hmet
        exact ⟨place, pointer, hat, hway, hdown.trans_left (expands_of_refers hplace)⟩
    · obtain ⟨hresolve, hnew⟩ := enter_eq_ok.1 henter
      obtain ⟨hhops, href⟩ := follow_eq_ok hresolve
      obtain ⟨hway, hname', hplaces⟩ := places_of_walk hhops rfl hname
      have hdown : library.Expands children resolved.place ⟨resolved.document, child⟩ :=
        Or.inr ⟨href, hchild, rfl⟩
      refine ih hname' ?_ ?_ ?_ hbelow
      · exact List.nodup_append.2 ⟨hnodup, nodup_chain_of_walk hhops List.nodup_nil,
          fun a ha b hb heq => hnew b hb (heq ▸ ha)⟩
      · exact (hstart.trans (expands_of_refers hway)).tail hdown
      · intro key hk
        rcases List.mem_append.1 hk with hk | hk
        · obtain ⟨place, hmet, hplace, hbefore⟩ := hactive key hk
          exact ⟨place, hmet, hplace, (hbefore.trans_left (expands_of_refers hway)).tail hdown⟩
        · obtain ⟨place, hmet, hplace, hafter⟩ := hplaces key hk
          exact ⟨place, hmet, hstart.trans (expands_of_refers hplace),
            Relation.TransGen.tail' (expands_of_refers hafter) hdown⟩

/-- The same for a walk that starts with no active keys. -/
theorem loops (hwalk : IsWalk children run combine) (b : β) {home : String}
    (hhome : SchemaReference.PlainName home)
    (hread : ∀ name chain, library.read name ≠ .error (.circularReference chain))
    {chain : List String} (hname : SchemaReference.NameOn home document)
    (h : run library depth b document node [] = .error (.circularReference chain))
    (hgenuine : ¬ chain.Nodup) : library.Loops children ⟨document, node⟩ :=
  hwalk.loops_of_active hhome hread hname List.nodup_nil Relation.ReflTransGen.refl
    (fun _ hkey => absurd hkey List.not_mem_nil) h hgenuine

end IsWalk

end Library

end TableExport
