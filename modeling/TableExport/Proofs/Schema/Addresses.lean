import TableExport.Proofs.Schema.Bounds
import TableExport.Proofs.Schema.Pointers
import TableExport.Proofs.Schema.TypeNames

/-!
# Addresses

Each node of a document has an address: the name of the document, a number sign, and the path to the
node as a pointer. `Workspace.resolves_address` says what becomes of a reference to it, in a session
over a folder: it leads to this very node, and from there on to what the node itself is resolved to.

A node is resolved to the end of a walk along references, as long as there is enough room
(`Library.resolve_eq_ok_iff`). A walk from the node and one that came through its address go the
same way, as only the node itself has this address, and a walk that ends does not come back to it
(`Library.not_mem_chain_of_ends`).
-/

namespace TableExport

namespace SchemaReference

theorem split?_key {name pointer : String} (hhash : '#' ∉ name.toList)
    (hpointer : IsPointer pointer) : split? (key name pointer) = some (name, pointer) := by
  rcases hpointer with hnil | hpointer
  · have hempty : pointer = "" := String.toList_inj.1 hnil
    rw [split?, toList_key, span_hash hhash, hnil, hempty]
    simp
  · rw [split?_eq_some (toList_key name pointer) hhash hpointer, String.ofList_toList,
      String.ofList_toList]

/-- A name without a number sign does not read as a reference with a pointer. -/
theorem plainName_of_not_mem {name : String} (h : '#' ∉ name.toList) : PlainName name := by
  intro target pointer hsplit
  have hdrop := drop_of_split? hsplit
  have hall : ∀ c ∈ name.toList, (c != '#') = true := fun c hc =>
    bne_iff_ne.2 fun heq => h (heq ▸ hc)
  rw [List.span_eq_takeWhile_dropWhile, List.dropWhile_eq_nil_iff.2 hall] at hdrop
  exact String.toList_inj.1 hdrop.symm

end SchemaReference

/-- A walk that has met a key before all others. -/
def Resolved.after (key : String) (resolved : Resolved) : Resolved :=
  { resolved with chain := key :: resolved.chain }

namespace Library

variable {library : Library (Except SchemaError)} {from_ next last : Resolved}

/-! ## Walks -/

theorem hopsTo_rightUnique : Relator.RightUnique library.HopsTo := by
  rintro from_ next other ⟨reference, href, hhop⟩ ⟨reference', href', hhop'⟩
  rw [href] at href'
  cases href'
  exact Except.ok.inj (hhop.symm.trans hhop')

/-- A reference is followed to where its pointer leads, under a new key. -/
theorem hop_of_split {reference target pointer name : String} {root schema : Json}
    (hsplit : SchemaReference.split? reference = some (target, pointer))
    (hname : name = if target.isEmpty then from_.document else target)
    (hnew : SchemaReference.key name pointer ∉ from_.chain) (hread : library.read name = .ok root)
    (hlookup : Pointer.lookup root pointer = .ok schema) :
    library.hop from_ reference =
      .ok ⟨name, schema, some reference, from_.chain ++ [SchemaReference.key name pointer]⟩ := by
  rw [hop, hsplit]
  simp only [← hname]
  rw [if_neg (by simpa using hnew), hread]
  simp only [bind, Except.bind, hlookup]
  rfl

/-- **A walk that ends is followed to its end**, if enough steps are allowed. -/
theorem follow_of_walk {hops : Nat} (h : Relation.ReflTransGen library.HopsTo from_ last)
    (hlast : last.schema.get? "$ref" = none)
    (hhops : last.chain.length ≤ from_.chain.length + hops) :
    library.follow hops from_ = .ok last := by
  induction h using Relation.ReflTransGen.head_induction_on generalizing hops with
  | refl => exact follow_of_get?_eq_none hlast
  | @head from_ next hstep hwalk ih =>
    have hlength := length_chain_of_hopsTo hstep
    have hle : next.chain.length ≤ last.chain.length := by
      rcases eq_or_length_chain_lt hwalk with rfl | hlt
      · exact le_refl _
      · exact hlt.le
    obtain ⟨reference, href, hhop⟩ := hstep
    obtain ⟨hops, rfl⟩ : ∃ rest, hops = rest + 1 := ⟨hops - 1, by omega⟩
    rw [follow_succ href, hhop]
    exact ih (by omega)

/-- **A node is resolved to the end of its walk**, where there is enough room. -/
theorem resolve_eq_ok_iff {start document : String} {node : Json} {references : List String}
    {size : Nat} (h : library.Roomy start references size)
    (hinside : Inside start references size document node) :
    library.resolve document node = .ok last ↔
      Relation.ReflTransGen library.HopsTo ⟨document, node, none, []⟩ last ∧
        last.schema.get? "$ref" = none := by
  refine ⟨follow_eq_ok, fun ⟨hwalk, hlast⟩ => follow_of_walk hwalk hlast ?_⟩
  have hlength := (walked_of_walk h.bounded (walked_start hinside) hwalk).length_le
  have hroom := h.length_keys_lt
  omega

/-- What has a reference goes on to where it leads. -/
theorem walk_head_iff (h : library.HopsTo from_ next) (hlast : last.schema.get? "$ref" = none) :
    Relation.ReflTransGen library.HopsTo from_ last ↔
      Relation.ReflTransGen library.HopsTo next last := by
  refine ⟨fun hwalk => ?_, Relation.ReflTransGen.head h⟩
  rcases hwalk.cases_head with rfl | ⟨other, hother, hrest⟩
  · obtain ⟨reference, href, -⟩ := h
    rw [href] at hlast
    cases hlast
  · rwa [hopsTo_rightUnique h hother]

/-- Where a walk goes on to does not depend on the reference that it came by. -/
theorem walk_of_reference {document : String} {node : Json} {reference : Option String}
    {chain : List String} (reference' : Option String)
    (h : Relation.ReflTransGen library.HopsTo ⟨document, node, reference, chain⟩ last)
    (hnode : node.get? "$ref" ≠ none) (hlast : last.schema.get? "$ref" = none) :
    Relation.ReflTransGen library.HopsTo ⟨document, node, reference', chain⟩ last := by
  rcases h.cases_head with rfl | ⟨next, ⟨own, href, hhop⟩, hrest⟩
  · exact absurd hlast hnode
  · exact Relation.ReflTransGen.head ⟨own, href, hhop⟩ hrest

/-! ## Walks through a key -/

/-- A step is the same for a walk that has met another key before. -/
theorem HopsTo.after {key : String} (h : library.HopsTo from_ next) (hkey : key ∉ next.chain) :
    library.HopsTo (from_.after key) (next.after key) := by
  obtain ⟨reference, href, hhop⟩ := h
  obtain ⟨target, pointer, root, hsplit, hdocument, hnew, hread, hlookup, hchain⟩ := hop_eq_ok hhop
  refine ⟨reference, href, ?_⟩
  have hnew' : SchemaReference.key next.document pointer ∉ (from_.after key).chain := by
    refine List.not_mem_cons_of_ne_of_not_mem (fun heq => hkey ?_) hnew
    rw [hchain, heq]
    exact List.mem_append_right _ (List.mem_singleton_self _)
  have hhop' : library.hop (from_.after key) reference = _ :=
    hop_of_split hsplit hdocument hnew' hread hlookup
  rw [hhop', ← reference_of_hop hhop, Resolved.after, Resolved.after, List.cons_append, ← hchain]

/-- A walk that has met another key before takes the same step without. -/
theorem exists_of_hopsTo_after {key : String} (h : library.HopsTo (from_.after key) next) :
    ∃ rest, next = rest.after key ∧ library.HopsTo from_ rest := by
  obtain ⟨reference, href, hhop⟩ := h
  obtain ⟨target, pointer, root, hsplit, hdocument, hnew, hread, hlookup, hchain⟩ := hop_eq_ok hhop
  have hnew' : SchemaReference.key next.document pointer ∉ from_.chain := fun hmem =>
    hnew (List.mem_cons_of_mem _ hmem)
  refine ⟨_, ?_, reference, href, hop_of_split hsplit hdocument hnew' hread hlookup⟩
  rw [Resolved.after, ← reference_of_hop hhop, ← List.cons_append]
  exact congrArg (fun chain => { next with chain }) hchain

theorem walk_after {key : String} (h : Relation.ReflTransGen library.HopsTo from_ last)
    (hkey : key ∉ last.chain) :
    Relation.ReflTransGen library.HopsTo (from_.after key) (last.after key) := by
  induction h with
  | refl => exact Relation.ReflTransGen.refl
  | tail _ hstep ih =>
    have hmiddle := hstep
    obtain ⟨reference, -, hhop⟩ := hmiddle
    obtain ⟨_, _, _, -, -, -, -, -, hchain⟩ := hop_eq_ok hhop
    exact (ih fun hmem => hkey (hchain ▸ List.mem_append_left _ hmem)).tail (hstep.after hkey)

theorem exists_of_walk_after {key : String}
    (h : Relation.ReflTransGen library.HopsTo (from_.after key) last) :
    ∃ rest, last = rest.after key ∧ Relation.ReflTransGen library.HopsTo from_ rest := by
  induction h with
  | refl => exact ⟨from_, rfl, Relation.ReflTransGen.refl⟩
  | tail _ hstep ih =>
    obtain ⟨middle, rfl, hwalk⟩ := ih
    obtain ⟨rest, rfl, hrest⟩ := exists_of_hopsTo_after hstep
    exact ⟨rest, rfl, hwalk.tail hrest⟩

/-- The keys of a walk are those of places after its start. -/
theorem exists_transGen_of_mem_chain {start key : String}
    (h : Relation.ReflTransGen library.HopsTo from_ last) (hchain : from_.chain = [])
    (hname : SchemaReference.NameOn start from_.document) (hkey : key ∈ last.chain) :
    ∃ place, library.Met start key place ∧
      Relation.TransGen library.Refers from_.place place := by
  induction h with
  | refl =>
    rw [hchain] at hkey
    cases hkey
  | @tail middle last hwalk hstep ih =>
    obtain ⟨hway, hmiddle, -⟩ := places_of_walk hwalk hchain hname
    obtain ⟨hrefers, own, hown, hmet⟩ := place_of_hopsTo hstep hmiddle
    rw [hown] at hkey
    rcases List.mem_append.1 hkey with hkey | hkey
    · exact ih hkey
    · rw [List.mem_singleton.1 hkey]
      exact ⟨last.place, hmet, Relation.TransGen.tail' hway hrefers⟩

/-- **A walk that ends does not come back to where it starts**, so it does not meet the address of
its start. -/
theorem not_mem_chain_of_ends {name pointer : String} {node : Json} (hhash : '#' ∉ name.toList)
    (hpointer : SchemaReference.IsPointer pointer) (hat : library.At ⟨name, node⟩ pointer)
    (h : Relation.ReflTransGen library.HopsTo ⟨name, node, none, []⟩ last)
    (hlast : last.schema.get? "$ref" = none) : SchemaReference.key name pointer ∉ last.chain := by
  intro hkey
  have hname : SchemaReference.NameOn name name := Or.inr rfl
  obtain ⟨place, hmet, hloop⟩ := exists_transGen_of_mem_chain h rfl hname hkey
  obtain rfl : place = ⟨name, node⟩ := hmet.unique (SchemaReference.plainName_of_not_mem hhash)
    ⟨pointer, rfl, hname, hpointer, hat⟩
  exact not_transGen_of_ends (places_of_walk h rfl hname).1 hlast hloop

end Library

/-! ## References to addresses -/

/-- The address of what a path leads to in a document. -/
def SchemaReference.address (name : String) (path : List Json.Step) : String :=
  key name (Pointer.ofPath path)

namespace Library

variable {library : Library (Except SchemaError)} {name document : String} {root node from_ : Json}
  {path : List Json.Step}

/-- **A reference to an address leads to what has the address.** -/
theorem hop_address (hname : name ≠ "") (hhash : '#' ∉ name.toList)
    (hread : library.read name = .ok root) (hpath : root.descend? path = some node)
    (hfeed : ∀ key, .key key ∈ path → '\n' ∉ key.toList) :
    library.hop ⟨document, from_, none, []⟩ (SchemaReference.address name path) =
      .ok ⟨name, node, some (SchemaReference.address name path),
        [SchemaReference.address name path]⟩ :=
  hop_of_split (SchemaReference.split?_key hhash (Pointer.isPointer_ofPath hfeed)) (by simp [hname])
    List.not_mem_nil hread (Pointer.lookup_of_descend? hpath)

/-- **A walk that comes through the address of a node goes on as one that starts at the node.** -/
theorem walk_address_iff {last : Resolved} (hhash : '#' ∉ name.toList)
    (hread : library.read name = .ok root) (hpath : root.descend? path = some node)
    (hfeed : ∀ key, .key key ∈ path → '\n' ∉ key.toList) (hnode : node.get? "$ref" ≠ none)
    (hlast : last.schema.get? "$ref" = none) :
    Relation.ReflTransGen library.HopsTo ⟨name, node, some (SchemaReference.address name path),
        [SchemaReference.address name path]⟩ last ↔
      ∃ rest, Relation.ReflTransGen library.HopsTo ⟨name, node, none, []⟩ rest ∧
        last = rest.after (SchemaReference.address name path) := by
  constructor
  · intro h
    obtain ⟨rest, rfl, hrest⟩ := @exists_of_walk_after _
      ⟨name, node, some (SchemaReference.address name path), []⟩ _ _ h
    exact ⟨rest, walk_of_reference none hrest hnode hlast, rfl⟩
  · rintro ⟨rest, hrest, rfl⟩
    have hnew := not_mem_chain_of_ends hhash (Pointer.isPointer_ofPath hfeed)
      ⟨root, hread, Pointer.lookup_of_descend? hpath⟩ hrest hlast
    have hreached := walk_of_reference (some (SchemaReference.address name path)) hrest hnode hlast
    exact walk_after hreached hnew

end Library

namespace Workspace

variable {workspace : Workspace} {folder : String} {known : Documents}

/-- What a node of a document is resolved to in a session. -/
def resolves (workspace : Workspace) (folder : String) (known : Documents) (document : String)
    (node : Json) : Except SchemaError Resolved :=
  (((workspace.library folder known node.size).resolve document node).run known).1

theorem run_answer {α : Type} (query : Query α) (size : Nat) :
    ((query.answer (workspace.library folder known size).read).run known).1 =
      query.answer (known.reading (workspace.schema folder)) :=
  (Query.run_session query known).1

theorem run_hop (size : Nat) (from_ : Resolved) (reference : String) :
    (((workspace.library folder known size).hop from_ reference).run known).1 =
      (Library.mk (known.reading (workspace.schema folder))
        (workspace.library folder known size).bound).hop from_ reference := by
  conv_rhs => rw [← Query.answer_hop, ← run_answer _ size, Query.answer_hop]

/-- What a session resolves a node to is given by what it reads. -/
theorem resolves_eq (document : String) (node : Json) :
    workspace.resolves folder known document node =
      (Library.mk (known.reading (workspace.schema folder))
        (workspace.library folder known node.size).bound).resolve document node := by
  rw [← Query.answer_resolve, ← run_answer _ node.size, Query.answer_resolve]
  rfl

/-- In a session a node is resolved to the end of its walk. -/
theorem resolves_eq_ok_iff {document : String} {node : Json} {last : Resolved} (bound : Nat) :
    workspace.resolves folder known document node = .ok last ↔
      Relation.ReflTransGen (Library.mk (known.reading (workspace.schema folder)) bound).HopsTo
        ⟨document, node, none, []⟩ last ∧ last.schema.get? "$ref" = none := by
  obtain ⟨references, room, hroomy, hinside⟩ := exists_roomy workspace folder known document
    (show ([node].map Json.size).sum ≤ node.size by simp)
  rw [resolves_eq]
  exact Library.resolve_eq_ok_iff hroomy (hinside node (List.mem_singleton_self _))

/-- **Each node of a document can be addressed**, in a session that reads the document under a name
without a number sign. A reference to the address of a node, from anywhere, leads to this node. If
the node has no reference, this is the result. Otherwise the result is that of resolving the node
in its own document, with the address in front of the chain, and one is there exactly if the other
is. -/
theorem resolves_address {name document : String} {root node from_ : Json} {path : List Json.Step}
    (hname : name ≠ "") (hhash : '#' ∉ name.toList)
    (hread : known.reading (workspace.schema folder) name = .ok root)
    (hpath : root.descend? path = some node)
    (hfeed : ∀ key, .key key ∈ path → '\n' ∉ key.toList)
    (href : from_.get? "$ref" = some (.str (SchemaReference.address name path))) :
    (((workspace.library folder known from_.size).hop ⟨document, from_, none, []⟩
        (SchemaReference.address name path)).run known).1 =
      .ok ⟨name, node, some (SchemaReference.address name path),
        [SchemaReference.address name path]⟩ ∧
    (node.get? "$ref" = none →
      workspace.resolves folder known document from_ =
        .ok ⟨name, node, some (SchemaReference.address name path),
          [SchemaReference.address name path]⟩) ∧
    (node.get? "$ref" ≠ none → ∀ resolved,
      workspace.resolves folder known document from_ = .ok resolved ↔
        ∃ rest, workspace.resolves folder known name node = .ok rest ∧
          resolved = { rest with chain := SchemaReference.address name path :: rest.chain }) := by
  let library : Library (Except SchemaError) :=
    ⟨known.reading (workspace.schema folder), (workspace.library folder known from_.size).bound⟩
  have hhop : library.hop ⟨document, from_, none, []⟩ (SchemaReference.address name path) = _ :=
    Library.hop_address hname hhash hread hpath hfeed
  have hstep : library.HopsTo ⟨document, from_, none, []⟩ _ := ⟨_, href, hhop⟩
  refine ⟨?_, fun hnode => ?_, fun hnode resolved => ?_⟩
  · exact (run_hop ..).trans hhop
  · rw [resolves_eq_ok_iff library.bound]
    exact ⟨(Library.walk_head_iff hstep hnode).2 Relation.ReflTransGen.refl, hnode⟩
  · rw [resolves_eq_ok_iff library.bound]
    constructor
    · rintro ⟨hwalk, hends⟩
      obtain ⟨rest, hrest, rfl⟩ := (Library.walk_address_iff hhash hread hpath hfeed hnode hends).1
        ((Library.walk_head_iff hstep hends).1 hwalk)
      exact ⟨rest, (resolves_eq_ok_iff library.bound).2 ⟨hrest, hends⟩, rfl⟩
    · rintro ⟨rest, hrest, rfl⟩
      obtain ⟨hwalk, hends⟩ := (resolves_eq_ok_iff library.bound).1 hrest
      have hends' : (rest.after (SchemaReference.address name path)).schema.get? "$ref" = none :=
        hends
      exact ⟨(Library.walk_head_iff hstep hends').2
        ((Library.walk_address_iff hhash hread hpath hfeed hnode hends').2 ⟨rest, hwalk, rfl⟩),
        hends'⟩

/-! ## A document with odd names -/

/-- A list whose name needs escaping, with a reference to a member without a name. -/
def oddDocument : Json :=
  .obj [("~/#1", .arr [.bool true, .obj [("$ref", .str "#/")]]),
    ("", .obj [("type", .str "string")])]

/-- The documents of a session in which it is registered. -/
def oddDocuments : Documents := (Documents.empty.register "odd" oddDocument).2

theorem resolves_address_odd :
    "odd" ≠ "" ∧ '#' ∉ "odd".toList ∧ oddDocuments.get? "odd" = some oddDocument ∧
    oddDocument.descend? [.key "~/#1", .index 1] = some (.obj [("$ref", .str "#/")]) ∧
    SchemaReference.address "odd" [.key "~/#1", .index 1] = "odd#/~0~1#1/1" ∧
    resolves ⟨"", [], []⟩ "" oddDocuments "shop" (.obj [("$ref", .str "odd#/~0~1#1/1")]) =
      .ok ⟨"odd", .obj [("type", .str "string")], some "#/", ["odd#/~0~1#1/1", "odd#/"]⟩ := by
  have hget : oddDocuments.get? "odd" = some oddDocument := rfl
  have hfeed : ∀ key, Json.Step.key key ∈ [Json.Step.key "~/#1", .index 1] →
      '\n' ∉ key.toList := by
    intro key hkey
    rcases List.mem_cons.1 hkey with heq | hkey
    · cases heq
      decide
    · cases List.mem_singleton.1 hkey
  have haddress := @resolves_address ⟨"", [], []⟩ "" oddDocuments "odd" "shop" oddDocument
    (.obj [("$ref", .str "#/")]) (.obj [("$ref", .str "odd#/~0~1#1/1")]) [.key "~/#1", .index 1]
    (by decide) (by decide) (Documents.reading_of_get? hget) rfl hfeed rfl
  exact ⟨by decide, by decide, hget, rfl, rfl, (haddress.2.2 (by rintro ⟨⟩) _).2 ⟨_, rfl, rfl⟩⟩

end Workspace

end TableExport
