import TableExport.Proofs.Schema.Resolving

/-!
# Places and their keys

A place is a node with the document that it stands in. `Refers` leads from a place to the one that
its reference names, and a walk along references goes from place to place.

The key of a place is the name of its document, a number sign and a pointer. Names in references
have no number sign, so a key tells which place it is the key of, unless the walk starts in a
document whose own name has a number sign and a pointer after it. `PlainName` excludes such names,
and under it keys are injective (`SchemaReference.key_injective`).

* `resolve_circular_iff`: where all references lead somewhere, a circle is reported exactly when no
  node without a reference is reached.
-/

namespace TableExport

/-! ## Keys -/

namespace SchemaReference

/-- A pointer is empty or starts with a slash, and has no line feed. -/
def IsPointer (pointer : String) : Prop :=
  pointer.toList = [] ∨ pointer.toList.head? = some '/' ∧ '\n' ∉ pointer.toList

/-- A name that does not read as a reference with a pointer. -/
def PlainName (name : String) : Prop :=
  ∀ target pointer, split? name = some (target, pointer) → pointer = ""

/-- The names of documents on a walk that starts in a document: that of the document itself and
those that references can name. -/
def NameOn (start name : String) : Prop := '#' ∉ name.toList ∨ name = start

theorem toList_key (document pointer : String) :
    (key document pointer).toList = document.toList ++ '#' :: pointer.toList := by
  simp [key]

theorem span_hash {document : List Char} (h : '#' ∉ document) (rest : List Char) :
    (document ++ '#' :: rest).span (· != '#') = (document, '#' :: rest) := by
  have hall : ∀ c ∈ document, (c != '#') = true := fun c hc =>
    bne_iff_ne.2 fun heq => h (heq ▸ hc)
  rw [List.span_eq_takeWhile_dropWhile, List.takeWhile_append_of_pos hall,
    List.dropWhile_append_of_pos hall]
  simp

theorem append_hash_inj {document document' rest rest' : List Char} (h : '#' ∉ document)
    (h' : '#' ∉ document') (heq : document ++ '#' :: rest = document' ++ '#' :: rest') :
    document = document' ∧ rest = rest' := by
  have hspan := span_hash h rest
  rw [heq, span_hash h'] at hspan
  simp only [Prod.mk.injEq, List.cons.injEq, true_and] at hspan
  exact ⟨hspan.1.symm, hspan.2.symm⟩

/-- What a reference is split into. -/
theorem isPointer_of_split? {reference target pointer : String}
    (h : split? reference = some (target, pointer)) :
    '#' ∉ target.toList ∧ IsPointer pointer := by
  have htake : '#' ∉ reference.toList.takeWhile (· != '#') := fun hmem => by
    simpa using List.mem_takeWhile_imp hmem
  rw [split?, List.span_eq_takeWhile_dropWhile] at h
  simp only at h
  split at h
  · split at h
    · cases h
    · cases h
      exact ⟨by simpa using htake, Or.inl rfl⟩
  · split at h
    · cases h
      exact ⟨by simpa using htake, Or.inl rfl⟩
    · split at h
      · rename_i hslash
        cases h
        exact ⟨by simpa using htake, Or.inr (by simpa using hslash)⟩
      · cases h

/-- A name with a number sign and a pointer after it reads as a reference. -/
theorem split?_eq_some {name : String} {document pointer : List Char}
    (hname : name.toList = document ++ '#' :: pointer) (hdocument : '#' ∉ document)
    (hpointer : pointer.head? = some '/' ∧ '\n' ∉ pointer) :
    split? name = some (String.ofList document, String.ofList pointer) := by
  have hne : pointer.isEmpty = false := by
    cases pointer with
    | nil => cases hpointer.1
    | cons c rest => rfl
  rw [split?, hname, span_hash hdocument]
  simp only [hne, Bool.false_eq_true, if_false]
  rw [if_pos hpointer]

/-- A plain name with a number sign is not taken for a shorter name with a longer pointer. -/
theorem eq_of_key_eq_key_start {start document pointer pointer' : String} (hstart : PlainName start)
    (hdocument : '#' ∉ document.toList) (hpointer : IsPointer pointer)
    (h : key document pointer = key start pointer') : document = start := by
  have hlist := congrArg String.toList h
  rw [toList_key, toList_key] at hlist
  by_cases hhash : '#' ∈ start.toList
  · obtain ⟨name, rest, hsplit, hname⟩ := List.eq_append_cons_of_mem hhash
    rw [hsplit, List.append_assoc, List.cons_append] at hlist
    obtain ⟨-, hrest⟩ := append_hash_inj hdocument hname hlist
    exfalso
    rcases hpointer with hnil | ⟨hslash, hfeed⟩
    · rw [hnil] at hrest
      cases rest <;> cases hrest
    · rw [hrest] at hslash hfeed
      cases rest with
      | nil => cases hslash
      | cons c rest =>
        have hplain := hstart _ _ (split?_eq_some hsplit hname
          ⟨hslash, fun hmem => hfeed (List.mem_append_left _ hmem)⟩)
        have htoList := congrArg String.toList hplain
        rw [String.toList_ofList] at htoList
        cases htoList
  · exact String.toList_inj.1 (append_hash_inj hdocument hhash hlist).1

/-- **The key of a place tells its document and its pointer.** -/
theorem key_injective {start document document' pointer pointer' : String}
    (hstart : PlainName start) (hdocument : NameOn start document)
    (hdocument' : NameOn start document') (hpointer : IsPointer pointer)
    (hpointer' : IsPointer pointer') (h : key document pointer = key document' pointer') :
    document = document' ∧ pointer = pointer' := by
  have hsame : document = document' := by
    rcases hdocument with hd | rfl
    · rcases hdocument' with hd' | rfl
      · have hlist := congrArg String.toList h
        rw [toList_key, toList_key] at hlist
        exact String.toList_inj.1 (append_hash_inj hd hd' hlist).1
      · exact eq_of_key_eq_key_start hstart hd hpointer h
    · rcases hdocument' with hd' | rfl
      · exact (eq_of_key_eq_key_start hstart hd' hpointer' h.symm).symm
      · rfl
  subst hsame
  have hlist := congrArg String.toList h
  rw [toList_key, toList_key, List.append_cancel_left_eq, List.cons.injEq] at hlist
  exact ⟨rfl, String.toList_inj.1 hlist.2⟩

end SchemaReference

/-! ## Places -/

/-- A node and the document that it stands in. -/
structure SchemaPlace where
  document : String
  node : Json

/-- Where a walk is. -/
def Resolved.place (resolved : Resolved) : SchemaPlace := ⟨resolved.document, resolved.schema⟩

namespace Library

variable {library : Library (Except SchemaError)} {start : String}

/-- A place is where a pointer leads to in its document. -/
def At (library : Library (Except SchemaError)) (place : SchemaPlace) (pointer : String) : Prop :=
  ∃ root, library.read place.document = .ok root ∧ Pointer.lookup root pointer = .ok place.node

/-- The reference of a place leads to another one. -/
def Refers (library : Library (Except SchemaError)) (place next : SchemaPlace) : Prop :=
  ∃ reference target pointer, place.node.get? "$ref" = some (.str reference) ∧
    SchemaReference.split? reference = some (target, pointer) ∧
    next.document = (if target.isEmpty then place.document else target) ∧ library.At next pointer

/-- A document has one node at a pointer. -/
theorem At.unique {place other : SchemaPlace} {pointer : String} (h : library.At place pointer)
    (h' : library.At other pointer) (hdocument : place.document = other.document) :
    place = other := by
  obtain ⟨document, node⟩ := place
  obtain ⟨document', node'⟩ := other
  obtain rfl : document = document' := hdocument
  obtain ⟨root, hroot, hnode⟩ := h
  obtain ⟨root', hroot', hnode'⟩ := h'
  rw [hroot] at hroot'
  cases hroot'
  rw [hnode] at hnode'
  cases hnode'
  rfl

/-- A place has one reference. -/
theorem refers_rightUnique : Relator.RightUnique library.Refers := by
  rintro place next other ⟨reference, target, pointer, href, hsplit, hnext, hat⟩
    ⟨reference', target', pointer', href', hsplit', hother, hat'⟩
  rw [href] at href'
  cases href'
  rw [hsplit] at hsplit'
  cases hsplit'
  exact hat.unique hat' (hnext.trans hother.symm)

theorem Refers.get?_ne_none {place next : SchemaPlace} (h : library.Refers place next) :
    place.node.get? "$ref" ≠ none := by
  obtain ⟨reference, _, _, href, -, -, -⟩ := h
  rw [href]
  exact Option.some_ne_none _

/-- From a place that leads to a node without a reference there is no way around. -/
theorem not_transGen_of_ends {place last : SchemaPlace}
    (h : Relation.ReflTransGen library.Refers place last) (hlast : last.node.get? "$ref" = none) :
    ¬ Relation.TransGen library.Refers place place := by
  induction h using Relation.ReflTransGen.head_induction_on with
  | refl =>
    intro hloop
    obtain ⟨next, hnext, -⟩ := Relation.TransGen.head'_iff.1 hloop
    exact hnext.get?_ne_none hlast
  | head hstep _ ih =>
    intro hloop
    obtain ⟨next, hnext, hback⟩ := Relation.TransGen.head'_iff.1 hloop
    rw [refers_rightUnique hnext hstep] at hback
    exact ih (Relation.TransGen.tail' hback hstep)

/-- Where references end each of them leads somewhere. -/
theorem refers_of_ends {place last next : SchemaPlace}
    (h : Relation.ReflTransGen library.Refers place last) (hlast : last.node.get? "$ref" = none)
    (hnext : Relation.ReflTransGen library.Refers place next) :
    next.node.get? "$ref" = none ∨ ∃ after, library.Refers next after := by
  rcases Relation.ReflTransGen.total_of_right_unique refers_rightUnique hnext h with hway | hway
  · rcases hway.cases_head with rfl | ⟨after, hafter, -⟩
    · exact Or.inl hlast
    · exact Or.inr ⟨after, hafter⟩
  · rcases hway.cases_head with rfl | ⟨after, hafter, -⟩
    · exact Or.inl hlast
    · exact absurd hlast hafter.get?_ne_none

/-! ## The places of keys -/

/-- A key that was met on a walk is the key of a place. -/
def Met (library : Library (Except SchemaError)) (start key : String) (place : SchemaPlace) :
    Prop :=
  ∃ pointer, key = SchemaReference.key place.document pointer ∧
    SchemaReference.NameOn start place.document ∧ SchemaReference.IsPointer pointer ∧
    library.At place pointer

/-- **A key is the key of one place.** -/
theorem Met.unique (hstart : SchemaReference.PlainName start) {key : String}
    {place other : SchemaPlace} (h : library.Met start key place)
    (h' : library.Met start key other) : place = other := by
  obtain ⟨pointer, rfl, hname, hpointer, hat⟩ := h
  obtain ⟨pointer', hkey, hname', hpointer', hat'⟩ := h'
  obtain ⟨hdocument, rfl⟩ :=
    SchemaReference.key_injective hstart hname hname' hpointer hpointer' hkey
  exact hat.unique hat' hdocument

theorem nameOn_target {document target pointer reference : String}
    (h : SchemaReference.split? reference = some (target, pointer))
    (hdocument : SchemaReference.NameOn start document) :
    SchemaReference.NameOn start (if target.isEmpty then document else target) := by
  split
  · exact hdocument
  · exact Or.inl (SchemaReference.isPointer_of_split? h).1

/-- A step follows the reference of its place, and meets the key of the place that it leads to. -/
theorem place_of_hopsTo {from_ next : Resolved} (h : library.HopsTo from_ next)
    (hname : SchemaReference.NameOn start from_.document) :
    library.Refers from_.place next.place ∧
      ∃ key, next.chain = from_.chain ++ [key] ∧ library.Met start key next.place := by
  obtain ⟨reference, href, hhop⟩ := h
  obtain ⟨target, pointer, root, hsplit, hdocument, -, hroot, hlookup, hchain⟩ := hop_eq_ok hhop
  have hat : library.At next.place pointer := ⟨root, hroot, hlookup⟩
  refine ⟨⟨reference, target, pointer, href, hsplit, hdocument, hat⟩, _, hchain, pointer, rfl, ?_,
    (SchemaReference.isPointer_of_split? hsplit).2, hat⟩
  change SchemaReference.NameOn start next.document
  rw [hdocument]
  exact nameOn_target hsplit hname

/-- **The keys of a walk are those of the places on its way.** -/
theorem places_of_walk {from_ last : Resolved}
    (h : Relation.ReflTransGen library.HopsTo from_ last) (hchain : from_.chain = [])
    (hname : SchemaReference.NameOn start from_.document) :
    Relation.ReflTransGen library.Refers from_.place last.place ∧
      SchemaReference.NameOn start last.document ∧
      ∀ key ∈ last.chain, ∃ place, library.Met start key place ∧
        Relation.ReflTransGen library.Refers from_.place place ∧
        Relation.ReflTransGen library.Refers place last.place := by
  induction h with
  | refl =>
    refine ⟨Relation.ReflTransGen.refl, hname, fun key hk => ?_⟩
    rw [hchain] at hk
    cases hk
  | @tail middle last _ hstep ih =>
    obtain ⟨hway, hmiddle, hmet⟩ := ih
    obtain ⟨hrefers, key, hkey, hplace⟩ := place_of_hopsTo hstep hmiddle
    have hlast := hplace
    obtain ⟨_, -, hlastName, -, -⟩ := hlast
    refine ⟨hway.tail hrefers, hlastName, fun other ho => ?_⟩
    rw [hkey] at ho
    rcases List.mem_append.1 ho with ho | ho
    · obtain ⟨place, hother, hto, hfrom⟩ := hmet other ho
      exact ⟨place, hother, hto, hfrom.tail hrefers⟩
    · rw [List.mem_singleton.1 ho]
      exact ⟨last.place, hplace, hway.tail hrefers, Relation.ReflTransGen.refl⟩

/-! ## Circles of references -/

/-- A reported circle is one: a place on the way leads back to itself. -/
theorem exists_loop_of_resolve (hstart : SchemaReference.PlainName start)
    (hread : ∀ name chain, library.read name ≠ .error (.circularReference chain))
    {document : String} {node : Json} {chain : List String}
    (hname : SchemaReference.NameOn start document)
    (h : library.resolve document node = .error (.circularReference chain))
    (hgenuine : ¬ chain.Nodup) :
    ∃ place pointer, library.At place pointer ∧
      Relation.ReflTransGen library.Refers ⟨document, node⟩ place ∧
      Relation.TransGen library.Refers place place := by
  obtain ⟨last, hwalk, hfails | ⟨hcut, -⟩⟩ := follow_eq_error h
  · cases hfails with
    | @hop reference _ href hhop =>
      obtain ⟨target, pointer, hsplit, hmem, -⟩ := hop_eq_circular hread hhop
      obtain ⟨-, hlast, hplaces⟩ := places_of_walk hwalk rfl hname
      obtain ⟨place, ⟨pointer', hkey, hplace, hpointer', hat⟩, hto, hback⟩ := hplaces _ hmem
      obtain ⟨hdocument, rfl⟩ := SchemaReference.key_injective hstart
        (nameOn_target hsplit hlast) hplace (SchemaReference.isPointer_of_split? hsplit).2
        hpointer' hkey
      exact ⟨place, pointer, hat, hto, Relation.TransGen.tail' hback
        ⟨reference, target, pointer, href, hsplit, hdocument.symm, hat⟩⟩
  · cases hcut
    exact absurd (nodup_chain_of_walk hwalk List.nodup_nil) hgenuine

/-- A reference that leads somewhere can be followed, or its key was met before. -/
theorem hop_of_refers {from_ : Resolved} {next : SchemaPlace} {reference : String}
    (h : library.Refers from_.place next)
    (href : from_.schema.get? "$ref" = some (.str reference)) {e : SchemaError}
    (hhop : library.hop from_ reference = .error e) : ∃ chain, e = .circularReference chain := by
  obtain ⟨reference', target, pointer, href', hsplit, hdocument, root, hroot, hlookup⟩ := h
  rw [show from_.place.node.get? "$ref" = some (.str reference) from href] at href'
  cases href'
  rw [hop, hsplit] at hhop
  change next.document = (if target.isEmpty then from_.document else target) at hdocument
  simp only [← hdocument] at hhop
  split at hhop
  · cases hhop
    exact ⟨_, rfl⟩
  · rw [hroot] at hhop
    simp only [bind, Except.bind, hlookup] at hhop
    cases hhop

/-- **A circle is reported exactly when no node without a reference is reached**, where all
references on the way lead somewhere. -/
theorem resolve_circular_iff {document : String} {node : Json}
    (hstart : SchemaReference.PlainName document)
    (hread : ∀ name chain, library.read name ≠ .error (.circularReference chain))
    (hgenuine : Genuine (library.resolve document node))
    (hvalid : ∀ place, Relation.ReflTransGen library.Refers ⟨document, node⟩ place →
      place.node.get? "$ref" = none ∨ ∃ next, library.Refers place next) :
    (∃ chain, library.resolve document node = .error (.circularReference chain)) ↔
      ¬ ∃ place, Relation.ReflTransGen library.Refers ⟨document, node⟩ place ∧
        place.node.get? "$ref" = none := by
  constructor
  · rintro ⟨chain, h⟩ ⟨last, hlast, hends⟩
    obtain ⟨place, -, -, hplace, hloop⟩ :=
      exists_loop_of_resolve hstart hread (Or.inr rfl) h (hgenuine chain h)
    rcases Relation.ReflTransGen.total_of_right_unique refers_rightUnique hplace hlast with
      hway | hway
    · exact not_transGen_of_ends hway hends hloop
    · rcases hway.cases_head with rfl | ⟨next, hnext, -⟩
      · exact not_transGen_of_ends Relation.ReflTransGen.refl hends hloop
      · exact hnext.get?_ne_none hends
  · intro hnever
    cases h : library.resolve document node with
    | ok resolved =>
      obtain ⟨hwalk, hends⟩ := follow_eq_ok h
      exact absurd ⟨_, (places_of_walk hwalk rfl (Or.inr rfl)).1, hends⟩ hnever
    | error e =>
      obtain ⟨last, hwalk, hfails | ⟨rfl, -⟩⟩ := follow_eq_error h
      · have hway := (places_of_walk hwalk rfl (Or.inr (rfl : document = document))).1
        rcases hvalid _ hway with hends | ⟨next, hnext⟩
        · exact absurd ⟨_, hway, hends⟩ hnever
        · cases hfails with
          | notText href hvalue =>
            obtain ⟨reference, _, _, href', -, -, -⟩ := hnext
            rw [show last.schema.get? "$ref" = some (.str reference) from href'] at href
            cases href
            cases hvalue
          | hop href hhop =>
            obtain ⟨chain, rfl⟩ := hop_of_refers hnext href hhop
            exact ⟨chain, rfl⟩
      · exact ⟨_, rfl⟩

end Library

end TableExport
