import TableExport.Code.Emission
import TableExport.Proofs.Schema.TypeNames

/-!
# Generated code is closed

The fields of generated objects have types of single values, types that are declared beside them,
and types with the name of a reference. Declarations and references go through the documents
separately: a field is named for the last reference that was followed, and a document declares the
entries of its `definitions`. They meet in `Naming.closed_documentFile`: where references lead to
entries, each type is declared in the file of a document.

* `Naming.accounted_declareObject`: what the fields of an object and of those below it are.
* `Naming.exists_declaration_of_entry`: a document declares what its entries are named for.

Only `definitions` are declared. An entry of `$defs` can be referred to just the same, and its type
is then used and not declared (`Naming.documentFile_defs`).
-/

namespace TableExport

/-- The types of the fields of a declaration. -/
def Declaration.usedTypes : Declaration → List String
  | .object _ _ _ members => members.map ObjectMember.typeName
  | .enumeration .. => []

namespace Naming

variable (naming : Naming)

/-! ## Objects -/

/-- A node whose type can be declared: a composite, or the texts of an enumeration. -/
inductive Declarable : TypeTree → Prop
  | composite {field : Field} {members : List TypeTree} : Declarable (.composite field members)
  | enumeration {field : Field} : field.enumValues ≠ [] → Declarable (.leaf field .string)

/-- Of two nodes that stand for one schema both can be declared, or neither. -/
theorem Declarable.of_standsFor {schema : Json} {node node' : TypeTree} (h : Declarable node)
    (hstands : node.StandsFor schema) (hstands' : node'.StandsFor schema) : Declarable node' := by
  cases hstands' with
  | composite => exact .composite
  | leaf hkind' htype' hvalues' =>
    cases hstands with
    | composite hkind =>
      rw [hkind] at hkind'
      obtain rfl := Option.some.inj hkind'
      cases htype'
    | leaf hkind htype hvalues =>
      rw [hkind] at hkind'
      obtain rfl := Option.some.inj hkind'
      cases h with
      | enumeration hadmits =>
        rw [htype] at htype'
        obtain rfl := Option.some.inj htype'
        exact .enumeration (by rwa [hvalues', ← hvalues])

/-- The type of a field: one of single values, the object without a name below it, or a type with a
name of its own. -/
theorem memberType_cases (owner : String) (member : TypeTree) :
    (∃ type, naming.memberType owner member = primitive type) ∨
    (∃ field members, member = .composite field members ∧ field.typeName = none ∧
      naming.memberType owner member = nestedName owner field.name) ∨
    ∃ typeName, Declarable member ∧ member.field.typeName = some typeName ∧
      naming.memberType owner member = naming.typeName typeName := by
  cases member with
  | composite field members =>
    cases hname : field.typeName with
    | none =>
      refine Or.inr (Or.inl ⟨field, members, rfl, hname, ?_⟩)
      simp [memberType, TypeTree.field, hname, TypeTree.name]
    | some typeName =>
      refine Or.inr (Or.inr ⟨typeName, .composite, hname, ?_⟩)
      simp [memberType, TypeTree.field, hname]
  | leaf field type =>
    by_cases hnamed : type = .string ∧ field.typeName.isSome ∧ field.enumValues ≠ []
    · obtain ⟨rfl, hsome, hvalues⟩ := hnamed
      obtain ⟨typeName, hname⟩ := Option.isSome_iff_exists.1 hsome
      refine Or.inr (Or.inr ⟨typeName, .enumeration hvalues, hname, ?_⟩)
      simp [memberType, TypeTree.field, hname, hvalues]
    · refine Or.inl ⟨type, ?_⟩
      cases type <;> cases hname : field.typeName <;>
        simp_all [memberType, TypeTree.field]

/-- A type that is one of single values, or declared among some declarations, or named by a node of
which something holds. -/
def Accounted (P : TypeTree → Prop) (declarations : List Declaration) (used : String) : Prop :=
  (∃ type, used = primitive type) ∨ (∃ declaration ∈ declarations, declaration.name = used) ∨
    ∃ node typeName, P node ∧ Declarable node ∧ node.field.typeName = some typeName ∧
      used = naming.typeName typeName

variable {naming} {P : TypeTree → Prop}

theorem Accounted.mono {declarations declarations' : List Declaration} {used : String}
    (h : naming.Accounted P declarations used) (hsub : declarations ⊆ declarations') :
    naming.Accounted P declarations' used := by
  rcases h with htype | ⟨declaration, hmem, hname⟩ | hnode
  · exact Or.inl htype
  · exact Or.inr (Or.inl ⟨declaration, hsub hmem, hname⟩)
  · exact Or.inr (Or.inr hnode)

theorem exists_mem_declareObject (name : String) (tree : TypeTree) :
    ∃ declaration ∈ naming.declareObject name tree, declaration.name = name := by
  cases tree with
  | leaf field type =>
    rw [declareObject]
    exact ⟨_, List.mem_singleton_self _, rfl⟩
  | composite field members =>
    rw [declareObject]
    exact ⟨_, List.mem_append_right _ (List.mem_singleton_self _), rfl⟩

/-- An object without a name is declared for the object that holds it. -/
theorem exists_mem_declareNested {owner : String} {members below : List TypeTree} {field : Field}
    (h : .composite field below ∈ members) (hname : field.typeName = none) :
    ∃ declaration ∈ naming.declareNested owner members,
      declaration.name = nestedName owner field.name := by
  induction members with
  | nil => cases h
  | cons member rest ih =>
    rcases List.mem_cons.1 h with rfl | h
    · rw [declareNested, hname]
      obtain ⟨declaration, hmem, hdeclared⟩ :=
        exists_mem_declareObject (nestedName owner field.name) (.composite field below)
      exact ⟨declaration, List.mem_append_left _ hmem, hdeclared⟩
    · obtain ⟨declaration, hmem, hdeclared⟩ := ih h
      refine ⟨declaration, ?_, hdeclared⟩
      cases member with
      | leaf => exact hmem
      | composite own _ =>
        rw [declareNested]
        split
        · exact hmem
        · exact List.mem_append_right _ hmem

mutual

/-- **The types of the fields of an object are accounted for**, and so are those of the objects
that are declared with it. -/
theorem accounted_declareObject (name : String) : ∀ tree : TypeTree,
    (∀ member ∈ tree.members, member.Everywhere P) →
    ∀ declaration ∈ naming.declareObject name tree, ∀ used ∈ declaration.usedTypes,
      naming.Accounted P (naming.declareObject name tree) used
  | .leaf field type => by
    intro _ declaration hdeclaration used hused
    rw [declareObject, List.mem_singleton] at hdeclaration
    rw [hdeclaration] at hused
    cases hused
  | .composite field members => by
    intro hmembers declaration hdeclaration used hused
    rw [declareObject] at hdeclaration ⊢
    rcases List.mem_append.1 hdeclaration with hnested | hown
    · exact (accounted_declareNested name members hmembers declaration hnested used hused).mono
        (List.subset_append_left _ _)
    · rw [List.mem_singleton.1 hown] at hused
      obtain ⟨_, hfield, rfl⟩ := List.mem_map.1 hused
      obtain ⟨member, hmember, rfl⟩ := List.mem_map.1 hfield
      rcases naming.memberType_cases name member with
        htype | ⟨own, below, rfl, hnone, hnested⟩ | ⟨typeName, hdeclarable, hname, htype⟩
      · exact Or.inl htype
      · obtain ⟨declaration, hmem, hdeclared⟩ := exists_mem_declareNested hmember hnone
        exact Or.inr (Or.inl ⟨declaration, List.mem_append_left _ hmem,
          hdeclared.trans hnested.symm⟩)
      · exact Or.inr (Or.inr ⟨member, typeName, (hmembers member hmember).self, hdeclarable, hname,
          htype⟩)

theorem accounted_declareNested (owner : String) : ∀ members : List TypeTree,
    (∀ member ∈ members, member.Everywhere P) →
    ∀ declaration ∈ naming.declareNested owner members, ∀ used ∈ declaration.usedTypes,
      naming.Accounted P (naming.declareNested owner members) used
  | [] => fun _ _ hdeclaration => by cases hdeclaration
  | .leaf .. :: rest => by
    intro hmembers
    exact accounted_declareNested owner rest (List.forall_mem_cons.1 hmembers).2
  | .composite field below :: rest => by
    intro hmembers declaration hdeclaration used hused
    obtain ⟨hfirst, hrest⟩ := List.forall_mem_cons.1 hmembers
    rw [declareNested] at hdeclaration ⊢
    split at hdeclaration
    · exact accounted_declareNested owner rest hrest declaration hdeclaration used hused
    · have hbelow : ∀ member ∈ below, member.Everywhere P := by
        cases hfirst with
        | composite _ hbelow => exact hbelow
      rcases List.mem_append.1 hdeclaration with hown | hothers
      · exact (accounted_declareObject (nestedName owner field.name) (.composite field below)
          hbelow declaration hown used hused).mono (List.subset_append_left _ _)
      · exact (accounted_declareNested owner rest hrest declaration hothers used hused).mono
          (List.subset_append_right _ _)

end

/-! ## Documents -/

/-- A definition declares an object, an enumeration, or nothing. -/
theorem declareDefinition_cases (name : String) (node : TypeTree) :
    naming.declareDefinition name node = naming.declareObject (naming.typeName name) node ∨
      ∀ declaration ∈ naming.declareDefinition name node, declaration.usedTypes = [] := by
  rw [declareDefinition.eq_def]
  split
  · exact Or.inr fun _ h => by cases h
  · split
    · split
      · exact Or.inr fun _ h => by cases h
      · refine Or.inr fun declaration h => ?_
        rw [List.mem_singleton.1 h]
        rfl
    · exact Or.inr fun _ h => by cases h
    · exact Or.inl rfl

theorem accounted_declareDefinition {name : String} {node : TypeTree} (h : node.Everywhere P) :
    ∀ declaration ∈ naming.declareDefinition name node, ∀ used ∈ declaration.usedTypes,
      naming.Accounted P (naming.declareDefinition name node) used := by
  intro declaration hdeclaration used hused
  rcases naming.declareDefinition_cases name node with hobject | hnone
  · rw [hobject] at hdeclaration ⊢
    exact accounted_declareObject _ _ h.members _ hdeclaration _ hused
  · rw [hnone declaration hdeclaration] at hused
    cases hused

/-- An object and an enumeration are declared under the name of their definition. -/
theorem exists_mem_declareDefinition {node : TypeTree} (h : Declarable node)
    (hflat : node.isArray = false) (name : String) :
    ∃ declaration ∈ naming.declareDefinition name node,
      declaration.name = naming.typeName name := by
  rw [declareDefinition.eq_def, if_neg (by rw [hflat]; exact Bool.false_ne_true)]
  cases h with
  | composite => exact exists_mem_declareObject _ _
  | enumeration hvalues =>
    simp only
    rw [if_neg (by simpa using hvalues)]
    exact ⟨_, List.mem_singleton_self _, rfl⟩

section Files

variable {library : Library (Except SchemaError)} {document : String}

/-- The definitions of a document are declared one by one. -/
theorem declareAll_eq_ok {entries : List (String × Json)} {declarations : List Declaration}
    (h : naming.declareAll library document entries = .ok declarations) :
    (∀ entry ∈ entries, ∃ node, library.typeNode entry.1 document entry.2 = .ok node ∧
      naming.declareDefinition entry.1 node ⊆ declarations) ∧
    ∀ declaration ∈ declarations, ∃ entry ∈ entries, ∃ node,
      library.typeNode entry.1 document entry.2 = .ok node ∧
      declaration ∈ naming.declareDefinition entry.1 node ∧
      naming.declareDefinition entry.1 node ⊆ declarations := by
  induction entries generalizing declarations with
  | nil =>
    cases h
    exact ⟨fun _ hentry => absurd hentry List.not_mem_nil,
      fun _ hmem => absurd hmem List.not_mem_nil⟩
  | cons entry rest ih =>
    obtain ⟨name, schema⟩ := entry
    obtain ⟨node, hnode, h⟩ := bind_eq_ok.1 h
    obtain ⟨others, hothers, h⟩ := bind_eq_ok.1 h
    cases h
    obtain ⟨hdeclared, hfrom⟩ := ih hothers
    have hfirst := List.subset_append_left (naming.declareDefinition name node) others
    have hrest := List.subset_append_right (naming.declareDefinition name node) others
    refine ⟨List.forall_mem_cons.2 ⟨⟨node, hnode, hfirst⟩, fun entry hentry => ?_⟩,
      fun declaration hmem => ?_⟩
    · obtain ⟨other, hother, hsub⟩ := hdeclared entry hentry
      exact ⟨other, hother, fun _ hd => hrest (hsub hd)⟩
    · rcases List.mem_append.1 hmem with hmem | hmem
      · exact ⟨_, List.mem_cons_self, node, hnode, hmem, hfirst⟩
      · obtain ⟨entry, hentry, other, hother, hd, hsub⟩ := hfrom declaration hmem
        exact ⟨entry, List.mem_cons_of_mem _ hentry, other, hother, hd,
          fun _ hd => hrest (hsub hd)⟩

/-- The definitions of a document are the entries of an object, or there are none. -/
theorem definitions_eq_ok {declarations : List Declaration}
    (h : naming.definitions library document = .ok declarations) :
    ∃ root, library.read document = .ok root ∧
      ((∃ entries, root.get? "definitions" = some (.obj entries) ∧
        naming.declareAll library document entries = .ok declarations) ∨
      (root.get? "definitions").bind Json.obj? = none ∧ declarations = []) := by
  rw [definitions] at h
  obtain ⟨root, hroot, h⟩ := bind_eq_ok.1 h
  refine ⟨root, hroot, ?_⟩
  split at h
  · rename_i entries hentries
    obtain ⟨value, hvalue, hobj⟩ := Option.bind_eq_some_iff.1 hentries
    cases value with
    | obj members =>
      cases hobj
      exact Or.inl ⟨entries, hvalue, h⟩
    | _ => cases hobj
  · rename_i hnone
    cases h
    exact Or.inr ⟨hnone, rfl⟩

/-- A document declares its definitions and the table that it describes. -/
theorem documentFile_eq_ok {file? : Option CodeFile}
    (h : naming.documentFile library document = .ok file?) :
    ∃ declarations table root, naming.definitions library document = .ok declarations ∧
      library.read document = .ok root ∧
      (table = [] ∨ ∃ tree, library.tableRoot document root = .ok tree ∧
        table = naming.declareObject (naming.typeName (displayName document)) tree) ∧
      file? = naming.file? (displayName document) (declarations ++ table) := by
  rw [documentFile] at h
  obtain ⟨declarations, hdeclarations, h⟩ := bind_eq_ok.1 h
  obtain ⟨root, hroot, h⟩ := bind_eq_ok.1 h
  split at h
  · obtain ⟨tree, htree, h⟩ := bind_eq_ok.1 h
    cases h
    exact ⟨declarations, _, root, hdeclarations, hroot, Or.inr ⟨tree, htree, rfl⟩, rfl⟩
  · cases h
    refine ⟨declarations, [], root, hdeclarations, hroot, Or.inl rfl, ?_⟩
    rw [List.append_nil]

/-- What is declared is in the file. -/
theorem exists_file?_of_mem {stem : String} {declarations : List Declaration}
    {declaration : Declaration} (h : declaration ∈ declarations) :
    ∃ file, naming.file? stem declarations = some file ∧ declaration ∈ file.declarations := by
  refine ⟨⟨naming.fileName stem, declarations⟩, ?_, h⟩
  rw [file?, if_neg (by simpa using List.ne_nil_of_mem h)]

theorem declarations_of_file? {stem : String} {declarations : List Declaration} {file : CodeFile}
    (h : naming.file? stem declarations = some file) : file.declarations = declarations := by
  rw [file?] at h
  split at h
  · cases h
  · cases h
    rfl

/-- **What the fields of a generated file are**: each has a type of single values, one that the file
declares, or one with the name of a reference. -/
theorem accounted_documentFile {file : CodeFile}
    (h : naming.documentFile library document = .ok (some file)) :
    ∀ declaration ∈ file.declarations, ∀ used ∈ declaration.usedTypes,
      naming.Accounted library.Sourced file.declarations used := by
  obtain ⟨declarations, table, root, hdefinitions, hroot, htable, hfile⟩ := documentFile_eq_ok h
  have hhoused : library.Housed ⟨document, root⟩ := ⟨root, hroot, List.Subset.refl _⟩
  rw [declarations_of_file? hfile.symm]
  intro declaration hdeclaration used hused
  rcases List.mem_append.1 hdeclaration with hdeclaration | hdeclaration
  · obtain ⟨root', hroot', ⟨entries, hentries, hall⟩ | ⟨-, rfl⟩⟩ := definitions_eq_ok hdefinitions
    · rw [hroot] at hroot'
      obtain rfl := Except.ok.inj hroot'
      obtain ⟨entry, hentry, node, hnode, hmem, hsub⟩ := (declareAll_eq_ok hall).2 _ hdeclaration
      have hplace : library.Housed ⟨document, entry.2⟩ := by
        obtain ⟨members, rfl, hmember⟩ := Json.exists_mem_of_get? hentries
        exact hhoused.part ((Json.within_of_mem_members hentry).1.trans
          (Json.within_of_mem_members hmember).1)
      have hknown : naming.Accounted library.Sourced _ used := accounted_declareDefinition
        (Library.sourced_buildWithin hplace hnode) _ hmem _ hused
      exact hknown.mono fun _ hd => List.mem_append_left _ (hsub hd)
    · cases hdeclaration
  · rcases htable with rfl | ⟨tree, htree, rfl⟩
    · cases hdeclaration
    · exact (accounted_declareObject _ _ (Library.sourced_tableRoot hhoused htree) _ hdeclaration _
        hused).mono (List.subset_append_right _ _)

/-- A node that stands for a definition is declared under the name of the definition. -/
theorem exists_declaration_of_entry {file? : Option CodeFile} {root : Json}
    {entries : Entries Json} {name : String} {schema : Json} {node : TypeTree}
    (h : naming.documentFile library document = .ok file?)
    (hroot : library.read document = .ok root)
    (hentries : root.get? "definitions" = some (.obj entries))
    (hentry : (name, schema) ∈ entries) (href : schema.get? "$ref" = none)
    (hdeclarable : Declarable node) (hstands : node.StandsFor schema) :
    ∃ file, file? = some file ∧
      ∃ declaration ∈ file.declarations, declaration.name = naming.typeName name := by
  obtain ⟨declarations, table, root', hdefinitions, hroot', -, rfl⟩ := documentFile_eq_ok h
  obtain ⟨root'', hroot'', hall⟩ := definitions_eq_ok hdefinitions
  rw [hroot] at hroot''
  obtain rfl := Except.ok.inj hroot''
  rw [hentries] at hall
  rcases hall with ⟨_, heq, hall⟩ | ⟨hnone, -⟩
  · cases heq
    obtain ⟨own, hown, hsub⟩ := (declareAll_eq_ok hall).1 _ hentry
    obtain ⟨hflat, hownStands⟩ := Library.standsFor_of_typeNode hown href hstands
    obtain ⟨declaration, hmem, hname⟩ := naming.exists_mem_declareDefinition
      (hdeclarable.of_standsFor hstands hownStands) hflat name
    obtain ⟨file, hfile, hdeclaration⟩ :=
      exists_file?_of_mem (List.mem_append_left table (hsub hmem))
    exact ⟨file, hfile, declaration, hdeclaration, hname⟩
  · cases hnone

end Files

end Naming

/-! ## Entries -/

namespace Library

/-- A reference in a document leads to an entry of the object under a keyword of some document. -/
def EntryReference (library : Library (Except SchemaError)) (document reference keyword
    name : String) : Prop :=
  ∃ target pointer root entries,
    SchemaReference.split? reference = some (target, pointer) ∧
    (Pointer.segments pointer).map Pointer.unescape = [keyword, name] ∧
    library.read (if target.isEmpty then document else target) = .ok root ∧
    root.get? keyword = some (.obj entries) ∧ name ∈ Entries.keys entries

/-- All references in a document lead to entries of `definitions` or `$defs` whose names are neither
numbers nor among the segments that structure a document. -/
def RefersToEntries (library : Library (Except SchemaError)) (document : String) (root : Json) :
    Prop :=
  ∀ reference ∈ root.references, ∃ keyword name,
    (keyword = "definitions" ∨ keyword = "$defs") ∧
    library.EntryReference document reference keyword name ∧
    name ∉ structuralSegments ∧ Literal.count? name = none

variable {library : Library (Except SchemaError)}

/-- What a reference to an entry leads to is the entry, whose name is that of the reference. -/
theorem EntryReference.eq_entry {from_ next : SchemaPlace} {reference keyword name : String}
    (h : library.EntryReference from_.document reference keyword name)
    (href : from_.node.get? "$ref" = some (.str reference)) (hrefers : library.Refers from_ next) :
    ∃ root entries, library.read next.document = .ok root ∧
      root.get? keyword = some (.obj entries) ∧ (name, next.node) ∈ entries ∧
      (namesType name = true → displayName reference = name) := by
  obtain ⟨target, pointer, root, entries, hsplit, hsegments, hroot, hentries, hname⟩ := h
  obtain ⟨own, _, _, hown, hownSplit, hdocument, root', hroot', hlookup⟩ := hrefers
  rw [href] at hown
  cases hown
  rw [hsplit] at hownSplit
  cases hownSplit
  rw [← hdocument, hroot'] at hroot
  obtain rfl := Except.ok.inj hroot
  refine ⟨root', entries, hroot', hentries, ?_,
    displayName_eq hsplit (show _ = [keyword] ++ [name] from hsegments)⟩
  obtain ⟨members, rfl, -⟩ := Json.exists_mem_of_get? hentries
  obtain ⟨schema, hschema⟩ := Entries.exists_get?_of_mem_keys hname
  rw [Pointer.lookup, hsegments] at hlookup
  simp only [Pointer.walk, Pointer.child?, show Entries.get? members keyword = _ from hentries,
    hschema] at hlookup
  cases hlookup
  exact Entries.mem_of_get? hschema

end Library

namespace Naming

variable (naming : Naming) (documents : Entries Json) (bound : Nat)

/-- A type is one of single values, or declared in the file of one of the documents. -/
def Known (used : String) : Prop :=
  (∃ type, used = primitive type) ∨
    ∃ document ∈ documents.keys, ∃ file,
      naming.documentFile (Library.ofDocuments documents bound) document = .ok (some file) ∧
      ∃ declaration ∈ file.declarations, declaration.name = used

variable {documents bound}

/-- **Generated code is closed.** Where all references lead to entries of `definitions` or `$defs`
and every document has a file, the types of the fields of generated objects are those of single
values, and those that the files declare. What is missing is named for an entry of `$defs`, which
no file declares, or for an entry without a name. -/
theorem closed_documentFile
    (hreferences : ∀ entry ∈ documents,
      (Library.ofDocuments documents bound).RefersToEntries entry.1 entry.2)
    (hfiles : ∀ document ∈ documents.keys, ∃ file?,
      naming.documentFile (Library.ofDocuments documents bound) document = .ok file?)
    {document : String} {file : CodeFile}
    (h : naming.documentFile (Library.ofDocuments documents bound) document = .ok (some file)) :
    ∀ declaration ∈ file.declarations, ∀ used ∈ declaration.usedTypes,
      naming.Known documents bound used ∨
      ∃ entry ∈ documents, ∃ reference ∈ entry.2.references, ∃ keyword name,
        (Library.ofDocuments documents bound).EntryReference entry.1 reference keyword name ∧
        (keyword = "$defs" ∨ name = "") ∧ used = naming.typeName (displayName reference) := by
  intro declaration hdeclaration used hused
  rcases accounted_documentFile h declaration hdeclaration used hused with
    htype | hdeclared | ⟨node, typeName, hsourced, hdeclarable, hname, rfl⟩
  · exact Or.inl (Or.inl htype)
  · obtain ⟨-, -, root, -, hroot, -, -⟩ := documentFile_eq_ok h
    have hkey := List.mem_map_of_mem (f := Prod.fst) (Library.mem_of_read_ofDocuments hroot)
    exact Or.inl (Or.inr ⟨document, hkey, file, h, hdeclared⟩)
  · obtain ⟨from_, next, reference, ⟨root, hroot, hsub⟩, href, hrefers, hends, rfl, hstands⟩ :=
      hsourced typeName hname
    have hentry := Library.mem_of_read_ofDocuments hroot
    have hmem := hsub (Json.mem_references_of_get? href)
    obtain ⟨keyword, name, hkeyword, hleads, hstructural, hcount⟩ :=
      hreferences _ hentry reference hmem
    by_cases hexcept : keyword = "$defs" ∨ name = ""
    · exact Or.inr ⟨_, hentry, reference, hmem, keyword, name, hleads, hexcept, rfl⟩
    · rw [not_or] at hexcept
      obtain ⟨root', entries, hroot', hentries, hown, hdisplay⟩ := hleads.eq_entry href hrefers
      obtain rfl := hkeyword.resolve_right hexcept.1
      have hnames : namesType name = true := by
        simp [namesType, hexcept.2, hstructural, hcount]
      have hkey := List.mem_map_of_mem (f := Prod.fst) (Library.mem_of_read_ofDocuments hroot')
      obtain ⟨file?, hfile⟩ := hfiles next.document hkey
      obtain ⟨file', rfl, hdeclared⟩ :=
        exists_declaration_of_entry hfile hroot' hentries hown hends hdeclarable hstands
      rw [hdisplay hnames]
      exact Or.inl (Or.inr ⟨next.document, hkey, file', hfile, hdeclared⟩)

/-- The documents of a shop, whose lines are items with a tag. -/
def shopDocuments : Entries Json :=
  [("common", .obj [("definitions", .obj [
      ("line", .obj [("$ref", .str "#/definitions/item")]),
      ("item", .obj [("type", .str "object"), ("properties", .obj [
        ("tags", .obj [("items", .obj [("$ref", .str "#/definitions/tag")])])])]),
      ("tag", .obj [("type", .str "string"), ("enum", .arr [.str "new"])])])]),
    ("shop", .obj [("type", .str "object"), ("properties", .obj [
      ("line", .obj [("$ref", .str "common#/definitions/line")])])])]

/-- The file of the table. -/
def shopFile : CodeFile :=
  ⟨"Shop.generated.cs", [.object "Shop" none false [⟨"line", "Item", false, none⟩]]⟩

/-- The file of the definitions. -/
def commonFile : CodeFile :=
  ⟨"Common.generated.cs", [
    .object "Line" none false [⟨"tags", "Tag", true, none⟩],
    .object "Item" none false [⟨"tags", "Tag", true, none⟩],
    .enumeration "Tag" none [⟨"new", none⟩]]⟩

theorem refersToEntries_shop : ∀ entry ∈ shopDocuments,
    (Library.ofDocuments shopDocuments 6).RefersToEntries entry.1 entry.2 := by
  intro entry hentry
  rcases List.mem_pair.1 hentry with rfl | rfl
  · intro reference hreference
    rcases List.mem_pair.1 (show reference ∈ ["#/definitions/item", "#/definitions/tag"]
      from hreference) with rfl | rfl
    · exact ⟨"definitions", "item", Or.inl rfl,
        ⟨"", "/definitions/item", _, _, rfl, rfl, rfl, rfl, by decide⟩, by decide, by decide⟩
    · exact ⟨"definitions", "tag", Or.inl rfl,
        ⟨"", "/definitions/tag", _, _, rfl, rfl, rfl, rfl, by decide⟩, by decide, by decide⟩
  · intro reference hreference
    rw [List.mem_singleton.1 (show reference ∈ ["common#/definitions/line"] from hreference)]
    exact ⟨"definitions", "line", Or.inl rfl,
      ⟨"common", "/definitions/line", _, _, rfl, rfl, rfl, rfl, by decide⟩, by decide, by decide⟩

theorem closed_documentFile_shop :
    (∀ entry ∈ shopDocuments,
      (Library.ofDocuments shopDocuments 6).RefersToEntries entry.1 entry.2) ∧
    (∀ document ∈ shopDocuments.keys, ∃ file?, Naming.documentFile ⟨""⟩
      (Library.ofDocuments shopDocuments 6) document = .ok file?) ∧
    Naming.documentFile ⟨""⟩ (Library.ofDocuments shopDocuments 6) "shop" =
      .ok (some shopFile) ∧
    ∀ declaration ∈ shopFile.declarations, ∀ used ∈ declaration.usedTypes,
      Naming.Known ⟨""⟩ shopDocuments 6 used ∨
      ∃ entry ∈ shopDocuments, ∃ reference ∈ entry.2.references, ∃ keyword name,
        (Library.ofDocuments shopDocuments 6).EntryReference entry.1 reference keyword name ∧
        (keyword = "$defs" ∨ name = "") ∧
        used = Naming.typeName ⟨""⟩ (displayName reference) := by
  have hcommon : Naming.documentFile ⟨""⟩ (Library.ofDocuments shopDocuments 6) "common" =
      .ok (some commonFile) := by decide +kernel
  have hshop : Naming.documentFile ⟨""⟩ (Library.ofDocuments shopDocuments 6) "shop" =
      .ok (some shopFile) := by decide +kernel
  have hfiles : ∀ document ∈ shopDocuments.keys, ∃ file?, Naming.documentFile ⟨""⟩
      (Library.ofDocuments shopDocuments 6) document = .ok file? := by
    intro document hdocument
    rcases List.mem_pair.1 (show document ∈ ["common", "shop"] from hdocument) with rfl | rfl
    · exact ⟨_, hcommon⟩
    · exact ⟨_, hshop⟩
  exact ⟨refersToEntries_shop, hfiles, hshop,
    closed_documentFile ⟨""⟩ refersToEntries_shop hfiles hshop⟩

/-- A document of a table with an entry of `$defs`. -/
def defsDocuments : Entries Json :=
  [("shop", .obj [
    ("$defs", .obj [("item", .obj [("type", .str "object"), ("properties", .obj [
      ("id", .obj [("type", .str "integer")])])])]),
    ("type", .str "object"),
    ("properties", .obj [("first", .obj [("$ref", .str "#/$defs/item")])])])]

/-- An entry of `$defs` is used under its name and not declared. -/
theorem documentFile_defs :
    (∀ entry ∈ defsDocuments,
      (Library.ofDocuments defsDocuments 6).RefersToEntries entry.1 entry.2) ∧
    defsDocuments.keys = ["shop"] ∧
    Naming.documentFile ⟨""⟩ (Library.ofDocuments defsDocuments 6) "shop" = .ok (some
      ⟨"Shop.generated.cs", [.object "Shop" none false [⟨"first", "Item", false, none⟩]]⟩) ∧
    ¬ Naming.Known ⟨""⟩ defsDocuments 6 "Item" := by
  have hshop : Naming.documentFile ⟨""⟩ (Library.ofDocuments defsDocuments 6) "shop" = .ok (some
      ⟨"Shop.generated.cs", [.object "Shop" none false [⟨"first", "Item", false, none⟩]]⟩) := by
    decide +kernel
  refine ⟨fun entry hentry reference hreference => ?_, rfl, hshop, ?_⟩
  · rw [List.mem_singleton.1 hentry] at hreference ⊢
    rw [List.mem_singleton.1 (show reference ∈ ["#/$defs/item"] from hreference)]
    exact ⟨"$defs", "item", Or.inr rfl,
      ⟨"", "/$defs/item", _, _, rfl, rfl, rfl, rfl, by decide⟩, by decide, by decide⟩
  · rintro (⟨type, htype⟩ | ⟨document, hdocument, file, hfile, declaration, hmem, hname⟩)
    · cases type <;> exact absurd htype (by decide)
    · rw [List.mem_singleton.1 (show document ∈ ["shop"] from hdocument), hshop] at hfile
      cases hfile
      rw [List.mem_singleton.1 hmem] at hname
      exact absurd hname (by decide)

end Naming

end TableExport
