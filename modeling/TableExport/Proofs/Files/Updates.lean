import TableExport.Batch.Output
import TableExport.Proofs.Files.Parents

/-!
# What an update changes

An update makes the folders on the trail of the parent of its path that are missing, and puts a file
at the target of the path (`Workspace.updates_update`). It takes nothing away, and makes folders only
where nothing was (`Workspace.Grows`).
-/

namespace TableExport

instance lawfulBEqByteArray : LawfulBEq ByteArray where
  eq_of_beq {a b} h := ByteArray.ext (eq_of_beq (show (a.data == b.data) = true from h))
  rfl {a} := show (a.data == a.data) = true from beq_self_eq_true a.data

namespace Workspace

open TableExport.Path

variable {workspace made later : Workspace} {location other : Location} {part path text : String}
  {parts : List String} {places : List Location} {content : ByteArray}

/-! ## Contents and folders after a change -/

theorem isFolderAt_iff :
    workspace.isFolderAt location = true ↔ location = [] ∨ location ∈ workspace.folders := by
  simp [isFolderAt]

/-- The content of a file among some that have been given another content at one location. -/
theorem find?_replaced (files : List (Location × ByteArray)) (location other : Location)
    (content : ByteArray) :
    ((files.map fun file => if file.1 == location then (location, content) else file).find?
        (·.1 == other)).map Prod.snd =
      if other = location ∧ (files.find? (·.1 == location)).isSome = true then some content
      else (files.find? (·.1 == other)).map Prod.snd := by
  induction files with
  | nil => simp
  | cons file rest ih =>
    obtain ⟨name, old⟩ := file
    rw [List.map_cons]
    by_cases hname : name = location
    · subst hname
      by_cases hother : name = other
      · subst hother
        simp
      · have hne := beq_false_of_ne hother
        simp only [beq_self_eq_true, if_true, List.find?_cons, hne, ih, Ne.symm hother, false_and,
          if_false]
    · have hne := beq_false_of_ne hname
      by_cases hother : name = other
      · subst hother
        simp [hne, hname]
      · have hne' := beq_false_of_ne hother
        simp only [hne, hne', Bool.false_eq_true, if_false, List.find?_cons, ih]

theorem contentAt?_putAt (workspace : Workspace) (location other : Location)
    (content : ByteArray) :
    (workspace.putAt location content).contentAt? other =
      if other = location then some content else workspace.contentAt? other := by
  rw [putAt]
  split_ifs with hthere heq heq
  · rw [Workspace.contentAt?, Option.isSome_map] at hthere
    exact (find?_replaced _ _ _ _).trans (if_pos ⟨heq, hthere⟩)
  · exact (find?_replaced _ _ _ _).trans (if_neg fun h => heq h.1)
  · rw [Workspace.contentAt?, Option.isSome_map, Option.not_isSome_iff_eq_none] at hthere
    simp [Workspace.contentAt?, List.find?_append, heq, hthere]
  · simp [Workspace.contentAt?, List.find?_append, Ne.symm heq]

@[simp] theorem isFolderAt_putAt (workspace : Workspace) (location other : Location)
    (content : ByteArray) :
    (workspace.putAt location content).isFolderAt other = workspace.isFolderAt other := by
  rw [putAt]
  split_ifs <;> rfl

@[simp] theorem root_putAt (workspace : Workspace) (location : Location) (content : ByteArray) :
    (workspace.putAt location content).root = workspace.root := by
  rw [putAt]
  split_ifs <;> rfl

/-! ## Growing -/

/-- The last name of a location is one that a file system takes. -/
def HasValidName (location : Location) : Prop :=
  ∃ name ∈ location.getLast?, isValidName name = true

theorem hasValidName_descend (hname : IsName part) :
    HasValidName (Path.descend location part) ↔ isValidName part = true := by
  simp [HasValidName, descend_of_isName hname]

theorem not_hasValidName (hname : IsName part) (h : isValidName part = false) :
    ¬ HasValidName (Path.descend location part) := by
  rw [hasValidName_descend hname, h]
  exact Bool.false_ne_true

/-- A workspace has all folders and files of another, and new folders only where there was
nothing. -/
structure Grows (workspace later : Workspace) : Prop where
  root : later.root = workspace.root
  folder : ∀ location, workspace.isFolderAt location = true → later.isFolderAt location = true
  content : ∀ location, workspace.contentAt? location ≠ none → later.contentAt? location ≠ none
  fresh : ∀ location, later.isFolderAt location = true → workspace.isFolderAt location = true ∨
    workspace.contentAt? location = none ∧ HasValidName location

theorem Grows.refl (workspace : Workspace) : workspace.Grows workspace :=
  ⟨rfl, fun _ h => h, fun _ h => h, fun _ h => Or.inl h⟩

theorem Grows.trans (h : workspace.Grows made) (h' : made.Grows later) : workspace.Grows later where
  root := h'.root.trans h.root
  folder := fun _ hfolder => h'.folder _ (h.folder _ hfolder)
  content := fun _ hcontent => h'.content _ (h.content _ hcontent)
  fresh := fun location hfolder => by
    rcases h'.fresh location hfolder with hmade | ⟨hnone, hvalid⟩
    · exact h.fresh location hmade
    · exact Or.inr ⟨not_not.1 fun hcontent => h.content location hcontent hnone, hvalid⟩

theorem Grows.existsAt (h : workspace.Grows later) (hexists : workspace.existsAt location = true) :
    later.existsAt location = true := by
  rw [Workspace.existsAt, Bool.or_eq_true, Option.isSome_iff_ne_none] at hexists ⊢
  exact hexists.imp (h.folder location) (h.content location)

theorem Grows.leadsTo (h : workspace.Grows later) (hleads : workspace.LeadsTo path) :
    later.LeadsTo path := by
  obtain ⟨hne, parts, hparts, hleads⟩ := hleads
  exact ⟨hne, parts, (partsOf?_congr h.root).trans hparts,
    hleads.mono h.folder fun other _ => h.existsAt⟩

/-! ## Making folders -/

/-- A location inside folders, and a folder itself. -/
def Inner (workspace : Workspace) (location : Location) : Prop :=
  ∀ other, other <+: location → workspace.isFolderAt other = true

theorem inner_nil (workspace : Workspace) : workspace.Inner [] := by
  intro other h
  rw [List.prefix_nil.1 h]
  rfl

theorem Inner.isFolderAt (h : workspace.Inner location) : workspace.isFolderAt location = true :=
  h location List.prefix_rfl

theorem Inner.mono (h : workspace.Inner location)
    (hfolder : ∀ other, workspace.isFolderAt other = true → later.isFolderAt other = true) :
    later.Inner location :=
  fun other hother => hfolder other (h other hother)

theorem Inner.descend (h : workspace.Inner location)
    (hname : IsName part → workspace.isFolderAt (Path.descend location part) = true) :
    workspace.Inner (Path.descend location part) := by
  by_cases hpart : IsName part
  · have hnext := hname hpart
    rw [descend_of_isName hpart] at hnext ⊢
    intro other hother
    rcases List.prefix_concat_iff.1 hother with rfl | hother
    · exact hnext
    · exact h other hother
  · rw [Path.descend]
    split_ifs with hstay hup
    · exact h
    · exact fun other hother => h other (hother.trans (List.dropLast_prefix location))
    · exact absurd ⟨(not_or.1 hstay).1, (not_or.1 hstay).2, hup⟩ hpart

/-- A workspace with new folders at some places where there was nothing. -/
structure Made (workspace : Workspace) (places : List Location) (made : Workspace) : Prop where
  root : made.root = workspace.root
  files : made.files = workspace.files
  folder : ∀ location, workspace.isFolderAt location = true → made.isFolderAt location = true
  fresh : ∀ location, made.isFolderAt location = true → workspace.isFolderAt location = true ∨
    location ∈ places ∧ made.Inner location ∧ workspace.contentAt? location = none ∧
      HasValidName location

theorem Made.refl (workspace : Workspace) (places : List Location) :
    workspace.Made places workspace :=
  ⟨rfl, rfl, fun _ h => h, fun _ h => Or.inl h⟩

theorem Made.contentAt? (h : workspace.Made places made) (location : Location) :
    made.contentAt? location = workspace.contentAt? location := by
  rw [Workspace.contentAt?, Workspace.contentAt?, h.files]

theorem Made.grows (h : workspace.Made places made) : workspace.Grows made where
  root := h.root
  folder := h.folder
  content := fun location hcontent => by rwa [h.contentAt?]
  fresh := fun location hfolder => (h.fresh location hfolder).imp id fun hnew => hnew.2.2

theorem Made.trans {more : List Location} (h : workspace.Made places made)
    (h' : made.Made more later) {all : List Location} (hplaces : places ⊆ all)
    (hmore : more ⊆ all) : workspace.Made all later where
  root := h'.root.trans h.root
  files := h'.files.trans h.files
  folder := fun _ hfolder => h'.folder _ (h.folder _ hfolder)
  fresh := fun location hfolder => by
    rcases h'.fresh location hfolder with hmade | ⟨hin, hinner, hnone, hvalid⟩
    · exact (h.fresh location hmade).imp id fun hnew =>
        ⟨hplaces hnew.1, hnew.2.1.mono h'.folder, hnew.2.2⟩
    · exact Or.inr ⟨hmore hin, hinner, (h.contentAt? location).symm.trans hnone, hvalid⟩

/-- A workspace with one more folder. -/
def withFolder (workspace : Workspace) (location : Location) : Workspace :=
  { workspace with folders := workspace.folders ++ [location] }

theorem isFolderAt_withFolder :
    (workspace.withFolder location).isFolderAt other = true ↔
      workspace.isFolderAt other = true ∨ other = location := by
  simp [isFolderAt_iff, withFolder, or_assoc]

theorem made_withFolder (hinner : (workspace.withFolder location).Inner location)
    (hcontent : workspace.contentAt? location = none) (hname : HasValidName location) :
    workspace.Made [location] (workspace.withFolder location) where
  root := rfl
  files := rfl
  folder := fun _ h => isFolderAt_withFolder.2 (Or.inl h)
  fresh := fun other h => (isFolderAt_withFolder.1 h).imp id fun heq => by
    subst heq
    exact ⟨List.mem_singleton_self _, hinner, hcontent, hname⟩

theorem Inner.withFolder (h : workspace.Inner location) (part : String) :
    (workspace.withFolder (Path.descend location part)).Inner (Path.descend location part) :=
  (h.mono fun _ hf => isFolderAt_withFolder.2 (Or.inl hf)).descend
    fun _ => isFolderAt_withFolder.2 (Or.inr rfl)

/-- What making folders does with the first part of a path. -/
theorem makeAlong_cons (workspace : Workspace) (location : Location) (part : String)
    (parts : List String) :
    workspace.makeAlong location (part :: parts) =
      if part = ".." ∧ location = [] then (workspace, false)
      else if IsName part ∧ workspace.isFolderAt (descend location part) = false then
        if workspace.contentAt? (descend location part) ≠ none ∨ isValidName part = false then
          (workspace, false)
        else (workspace.withFolder (descend location part)).makeAlong (descend location part) parts
      else workspace.makeAlong (descend location part) parts := by
  rw [makeAlong]
  by_cases hstay : part = "" ∨ part = "."
  · have hname : ¬ IsName part := fun h => hstay.elim h.1 h.2.1
    have hup : part ≠ ".." := by
      rintro rfl
      simp at hstay
    simp [descend, hstay, hname, hup, String.isEmpty_iff]
  · by_cases hup : part = ".."
    · subst hup
      simp [descend, IsName]
    · have hname : IsName part := ⟨(not_or.1 hstay).1, (not_or.1 hstay).2, hup⟩
      simp only [descend_of_isName hname, hname, withFolder]
      cases workspace.isFolderAt (location ++ [part]) <;>
        cases workspace.contentAt? (location ++ [part]) <;> cases isValidName part <;>
        simp [hstay, hup]

/-- **Making folders adds what is missing along the trail**, all of it unless it fails. -/
theorem made_makeAlong (hinner : workspace.Inner location) :
    workspace.Made (trail location parts) (workspace.makeAlong location parts).1 ∧
      ((workspace.makeAlong location parts).2 = true →
        ∀ other ∈ trail location parts, (workspace.makeAlong location parts).1.Inner other) := by
  induction parts generalizing workspace location with
  | nil =>
    refine ⟨Made.refl _ _, fun _ other hother => ?_⟩
    rw [List.mem_singleton.1 hother]
    exact hinner
  | cons part rest ih =>
    rw [makeAlong_cons]
    split_ifs with hroot hmissing hfails
    · exact ⟨Made.refl _ _, nofun⟩
    · exact ⟨Made.refl _ _, nofun⟩
    · rw [not_or, not_not, Bool.not_eq_false] at hfails
      have hvalid : HasValidName (descend location part) :=
        (hasValidName_descend hmissing.1).2 hfails.2
      have hnext := hinner.withFolder part
      have hmade := made_withFolder hnext hfails.1 hvalid
      obtain ⟨hrest, hall⟩ := ih hnext
      refine ⟨hmade.trans hrest ?_ (List.subset_cons_self _ _), fun hdone => ?_⟩
      · exact List.cons_subset.2
          ⟨List.mem_cons_of_mem _ start_mem_trail, List.nil_subset _⟩
      · exact List.forall_mem_cons.2
          ⟨(hinner.mono hmade.folder).mono hrest.folder, hall hdone⟩
    · have hnext : workspace.Inner (descend location part) :=
        hinner.descend fun hname => by simpa [hname] using hmissing
      obtain ⟨hrest, hall⟩ := ih hnext
      exact ⟨(Made.refl _ _).trans hrest (List.nil_subset _) (List.subset_cons_self _ _),
        fun hdone => List.forall_mem_cons.2 ⟨hinner.mono hrest.folder, hall hdone⟩⟩

/-- Where no folder could be made, none is made later. -/
theorem Grows.isFolderAt_eq_false (h : workspace.Grows later)
    (hfolder : workspace.isFolderAt location = false)
    (hfails : workspace.contentAt? location ≠ none ∨ ¬ HasValidName location) :
    later.isFolderAt location = false := by
  by_contra hlater
  rcases h.fresh location (by simpa using hlater) with hthere | ⟨hnone, hvalid⟩
  · rw [hfolder] at hthere
    cases hthere
  · exact hfails.elim (fun hcontent => hcontent hnone) (fun hinvalid => hinvalid hvalid)

/-- **Folders are made once**: where they were made and more was added since, nothing is made. -/
theorem makeAlong_again (hinner : workspace.Inner location)
    (h : (workspace.makeAlong location parts).1.Grows later) :
    later.makeAlong location parts = (later, (workspace.makeAlong location parts).2) := by
  induction parts generalizing workspace location with
  | nil => rfl
  | cons part rest ih =>
    -- a folder that is there stays, so the rest is made from it
    have hon : ∀ mid : Workspace, mid.Inner (descend location part) →
        (mid.makeAlong (descend location part) rest).1.Grows later →
        ¬ (part = ".." ∧ location = []) → later.makeAlong location (part :: rest) =
          (later, (mid.makeAlong (descend location part) rest).2) := by
      intro mid hmid hlater hroot
      have hthere : later.isFolderAt (descend location part) = true :=
        hlater.folder _ ((made_makeAlong hmid).1.folder _ hmid.isFolderAt)
      rw [makeAlong_cons, if_neg hroot, if_neg (by simp [hthere]), ih hmid hlater]
    rw [makeAlong_cons workspace] at h ⊢
    split_ifs at h ⊢ with hroot hmissing hfails
    · rw [makeAlong_cons, if_pos hroot]
    · have hthere := h.isFolderAt_eq_false hmissing.2
        (hfails.imp id (not_hasValidName hmissing.1))
      rw [makeAlong_cons, if_neg hroot, if_pos ⟨hmissing.1, hthere⟩,
        if_pos (hfails.imp (h.content _) id)]
    · exact hon _ (hinner.withFolder part) h hroot
    · exact hon _ (hinner.descend fun hname => by simpa [hname] using hmissing) h hroot

theorem Grows.withFolder (h : workspace.Grows later) (hfolder : later.isFolderAt location = true) :
    (workspace.withFolder location).Grows later where
  root := h.root
  folder := fun other hother => (isFolderAt_withFolder.1 hother).elim (h.folder other)
    fun heq => heq ▸ hfolder
  content := h.content
  fresh := fun other hother => (h.fresh other hother).imp
    (fun hthere => isFolderAt_withFolder.2 (Or.inl hthere)) id

/-- Whether folders can be made stays the same where more is added but no files along the trail. -/
theorem makeAlong_congr (hinner : workspace.Inner location) (h : workspace.Grows later)
    (hfiles : ∀ other ∈ trail location parts, workspace.contentAt? other = none →
      later.contentAt? other = none) :
    (later.makeAlong location parts).2 = (workspace.makeAlong location parts).2 := by
  induction parts generalizing workspace later location with
  | nil => rfl
  | cons part rest ih =>
    have hrest : ∀ other ∈ trail (descend location part) rest, workspace.contentAt? other = none →
        later.contentAt? other = none :=
      fun other hother => hfiles other (List.mem_cons_of_mem _ hother)
    rw [makeAlong_cons, makeAlong_cons]
    by_cases hroot : part = ".." ∧ location = []
    · rw [if_pos hroot, if_pos hroot]
    · rw [if_neg hroot, if_neg hroot]
      by_cases hmissing : IsName part ∧ workspace.isFolderAt (descend location part) = false
      · rw [if_pos hmissing]
        have hnext := hinner.withFolder part
        by_cases hfails : workspace.contentAt? (descend location part) ≠ none ∨
            isValidName part = false
        · have hthere := h.isFolderAt_eq_false hmissing.2
            (hfails.imp id (not_hasValidName hmissing.1))
          rw [if_pos hfails, if_pos ⟨hmissing.1, hthere⟩, if_pos (hfails.imp (h.content _) id)]
        · rw [if_neg hfails]
          by_cases hthere : later.isFolderAt (descend location part) = true
          · rw [if_neg (by simp [hthere])]
            exact ih hnext (h.withFolder hthere) hrest
          · -- both make the folder
            rw [not_or, not_not] at hfails
            have hnone := hfiles _ (List.mem_cons_of_mem _ start_mem_trail) hfails.1
            have hlater : later.Inner location := hinner.mono h.folder
            rw [if_pos ⟨hmissing.1, by simpa using hthere⟩, if_neg (by simp [hnone, hfails.2])]
            have hvalid : HasValidName (descend location part) :=
              (hasValidName_descend hmissing.1).2 (by simpa using hfails.2)
            have hgrows : workspace.Grows (later.withFolder (descend location part)) :=
              h.trans (made_withFolder (hlater.withFolder part) hnone hvalid).grows
            exact ih hnext (hgrows.withFolder (isFolderAt_withFolder.2 (Or.inr rfl))) hrest
      · have hthere : IsName part → workspace.isFolderAt (descend location part) = true :=
          fun hname => by simpa [hname] using hmissing
        rw [if_neg hmissing, if_neg fun hlater => by
          have := h.folder _ (hthere hlater.1)
          simp [hlater.2] at this]
        exact ih (hinner.descend hthere) h hrest

/-! ## Writing a file -/

theorem write?_of_parts {front : List String} {name : String}
    (hparts : workspace.partsOf? path = some (front ++ [name])) :
    workspace.write? path content =
      if IsName name ∧ isValidName name = true ∧ workspace.Leads [] front ∧
          workspace.isFolderAt (target [] front) = true ∧
          workspace.isFolderAt (target [] front ++ [name]) = false then
        some (workspace.putAt (target [] front ++ [name]) content)
      else none := by
  have hrefused : (name.isEmpty || name == "." || name == ".." || !isValidName name) = true ↔
      ¬ (IsName name ∧ isValidName name = true) := by
    simp only [IsName, Bool.or_eq_true, String.isEmpty_iff, beq_iff_eq, Bool.not_eq_true',
      not_and_or, not_not, ne_eq, Bool.not_eq_true, or_assoc]
  simp only [write?, hparts, Option.bind_eq_bind, Option.bind_some, List.getLast?_concat,
    List.dropLast_concat, walk_eq]
  by_cases hname : IsName name ∧ isValidName name = true
  · rw [if_neg fun h => hrefused.1 h hname]
    by_cases hleads : workspace.Leads [] front
    · cases hfolder : workspace.isFolderAt (target [] front) <;>
        cases hfree : workspace.isFolderAt (target [] front ++ [name]) <;>
        simp [hname, hleads, hfolder, hfree]
    · simp [hleads]
  · rw [if_pos (hrefused.2 hname), if_neg fun h => hname ⟨h.1, h.2.1⟩]

/-- A file is written at the target of its path, into a folder. -/
theorem write?_eq_some :
    workspace.write? path content = some later ↔
      ∃ front name, workspace.partsOf? path = some (front ++ [name]) ∧ IsName name ∧
        isValidName name = true ∧ workspace.Leads [] front ∧
        workspace.isFolderAt (target [] front) = true ∧
        workspace.isFolderAt (target [] front ++ [name]) = false ∧
        later = workspace.putAt (target [] front ++ [name]) content := by
  constructor
  · intro h
    obtain ⟨parts, hparts, hrest⟩ := Option.bind_eq_some_iff.1 h
    obtain ⟨name, hlast, -⟩ := Option.bind_eq_some_iff.1 hrest
    obtain ⟨front, rfl⟩ := List.getLast?_eq_some_iff.1 hlast
    rw [write?_of_parts hparts] at h
    split_ifs at h with hall
    cases h
    exact ⟨front, name, hparts, hall.1, hall.2.1, hall.2.2.1, hall.2.2.2.1, hall.2.2.2.2, rfl⟩
  · rintro ⟨front, name, hparts, hname, hvalid, hleads, hfolder, hfree, rfl⟩
    rw [write?_of_parts hparts, if_pos ⟨hname, hvalid, hleads, hfolder, hfree⟩]

theorem targetOf_of_parts {front : List String} {name : String}
    (hparts : workspace.partsOf? path = some (front ++ [name])) (hname : IsName name) :
    workspace.targetOf path = target [] front ++ [name] := by
  rw [targetOf, hparts, Option.map_some, Option.getD_some, target_append, target_cons, target_nil,
    descend_of_isName hname]

/-- The empty path has no name at its end. -/
theorem partsOf?_empty {front : List String} {name : String}
    (hparts : workspace.partsOf? "" = some (front ++ [name])) (hname : IsName name) : False := by
  rcases partsOf?_cases hparts with ⟨hne, hroot, -⟩ | ⟨-, rest, hrest, -⟩ | ⟨-, hpieces, -⟩
  · exact hne hroot.symm
  · simp at hrest
  · have hlast := congrArg List.getLast? hpieces
    rw [List.getLast?_concat] at hlast
    exact hname.1 (Option.some.inj hlast)

/-- What a file that is written changes, and that it can be read. -/
theorem spec_of_write? (h : workspace.write? path content = some later) :
    workspace.isFolderAt (workspace.targetOf path) = false ∧
      HasValidName (workspace.targetOf path) ∧
      later = workspace.putAt (workspace.targetOf path) content ∧
      later.read? path = some content := by
  obtain ⟨front, name, hparts, hname, hvalid, hleads, hfolder, hfree, rfl⟩ := write?_eq_some.1 h
  have htarget := targetOf_of_parts hparts hname
  rw [← htarget] at hfree ⊢
  have hcontent : (workspace.putAt (workspace.targetOf path) content).contentAt?
      (workspace.targetOf path) = some content := by
    rw [contentAt?_putAt, if_pos rfl]
  have hgrows : ∀ other, workspace.existsAt other = true →
      (workspace.putAt (workspace.targetOf path) content).existsAt other = true := by
    intro other hother
    rw [Workspace.existsAt, isFolderAt_putAt, contentAt?_putAt]
    split_ifs
    · simp
    · exact hother
  refine ⟨hfree, ⟨name, by rw [htarget, List.getLast?_concat]; rfl, hvalid⟩, rfl,
    read?_eq_some.2 ⟨⟨?_, front ++ [name], ?_, ?_⟩, ?_⟩⟩
  · rintro rfl
    exact partsOf?_empty hparts hname
  · rw [← hparts]
    exact partsOf?_congr (root_putAt _ _ _)
  · refine leads_append.2 ⟨hleads.mono (fun _ h => by rwa [isFolderAt_putAt])
      fun other _ => hgrows other, ⟨by rwa [isFolderAt_putAt], fun hup => absurd hup hname.2.2,
        fun _ => ?_⟩, trivial⟩
    rw [descend_of_isName hname, ← htarget, Workspace.existsAt, hcontent]
    simp
  · rw [targetOf_congr (root_putAt _ _ _)]
    exact hcontent

/-- Makes the folders that a path lies in. -/
def makeParent (workspace : Workspace) (path : String) : Workspace × Bool :=
  match parent? path with
  | some parent => workspace.makeFolders parent
  | none => (workspace, true)

/-- The trail of the folder that a path lies in. -/
def parentTrail (workspace : Workspace) (path : String) : List Location :=
  ((parent? path).map workspace.trailOf).getD []

/-- Folders are made along the trail of the parent. -/
theorem made_makeParent (workspace : Workspace) (path : String) :
    workspace.Made (workspace.parentTrail path) (workspace.makeParent path).1 ∧
      ((workspace.makeParent path).2 = true → ∀ location ∈ workspace.parentTrail path,
        (workspace.makeParent path).1.isFolderAt location = true) := by
  rw [makeParent, parentTrail]
  cases parent? path with
  | none => exact ⟨Made.refl _ _, fun _ _ h => by cases h⟩
  | some parent =>
    simp only [makeFolders, trailOf, Option.map_some, Option.getD_some]
    cases workspace.partsOf? parent with
    | none => exact ⟨Made.refl _ _, by rintro ⟨⟩⟩
    | some parts =>
      obtain ⟨hmade, hall⟩ : workspace.Made (trail [] parts) (workspace.makeAlong [] parts).1 ∧ _ :=
        made_makeAlong workspace.inner_nil
      exact ⟨hmade, fun hdone location hlocation => (hall hdone location hlocation).isFolderAt⟩

theorem update_eq_skipped (hread : workspace.read? path = some text.toUTF8) :
    workspace.update path text = (.ok .skipped, workspace) := by
  rw [update, if_pos (by simp [hread])]

/-- An update of a file that does not hold the text makes the folders of its path, and then writes
the file. -/
theorem update_eq_ite (hread : workspace.read? path ≠ some text.toUTF8) :
    workspace.update path text =
      if (workspace.makeParent path).2 = true then
        (((workspace.makeParent path).1.write? path text.toUTF8).map fun later =>
          (.ok .written, later)).getD (.error (.file path), (workspace.makeParent path).1)
      else (.error (.folder ((parent? path).getD "")), (workspace.makeParent path).1) := by
  rw [update, if_neg (by simpa using hread), makeParent]
  cases parent? path with
  | none =>
    simp only [if_true]
    cases workspace.write? path text.toUTF8 <;> rfl
  | some parent =>
    simp only
    rcases workspace.makeFolders parent with ⟨made, _ | _⟩
    · rfl
    · simp only [if_true]
      cases made.write? path text.toUTF8 <;> rfl

theorem update_eq_folder (hread : workspace.read? path ≠ some text.toUTF8)
    (hparent : workspace.makeParent path = (made, false)) :
    workspace.update path text = (.error (.folder ((parent? path).getD "")), made) := by
  rw [update_eq_ite hread, hparent, if_neg Bool.false_ne_true]

theorem update_eq_file (hread : workspace.read? path ≠ some text.toUTF8)
    (hparent : workspace.makeParent path = (made, true))
    (hwrite : made.write? path text.toUTF8 = none) :
    workspace.update path text = (.error (.file path), made) := by
  rw [update_eq_ite hread, hparent, if_pos rfl, hwrite]
  rfl

theorem update_eq_written (hread : workspace.read? path ≠ some text.toUTF8)
    (hparent : workspace.makeParent path = (made, true))
    (hwrite : made.write? path text.toUTF8 = some later) :
    workspace.update path text = (.ok .written, later) := by
  rw [update_eq_ite hread, hparent, if_pos rfl, hwrite]
  rfl

/-- What becomes of an update. -/
theorem update_cases (workspace : Workspace) (path text : String) :
    (workspace.read? path = some text.toUTF8 ∧
      workspace.update path text = (.ok .skipped, workspace)) ∨
    (workspace.read? path ≠ some text.toUTF8 ∧ ∃ made, workspace.makeParent path = (made, false) ∧
      workspace.update path text = (.error (.folder ((parent? path).getD "")), made)) ∨
    (workspace.read? path ≠ some text.toUTF8 ∧
      ∃ made, workspace.makeParent path = (made, true) ∧ made.write? path text.toUTF8 = none ∧
        workspace.update path text = (.error (.file path), made)) ∨
    (workspace.read? path ≠ some text.toUTF8 ∧
      ∃ made later, workspace.makeParent path = (made, true) ∧
        made.write? path text.toUTF8 = some later ∧
        workspace.update path text = (.ok .written, later)) := by
  by_cases hread : workspace.read? path = some text.toUTF8
  · exact Or.inl ⟨hread, update_eq_skipped hread⟩
  refine Or.inr ?_
  rcases hparent : workspace.makeParent path with ⟨made, _ | _⟩
  · exact Or.inl ⟨hread, made, rfl, update_eq_folder hread hparent⟩
  · cases hwrite : made.write? path text.toUTF8 with
    | none => exact Or.inr (Or.inl ⟨hread, made, rfl, hwrite, update_eq_file hread hparent hwrite⟩)
    | some later =>
      exact Or.inr (Or.inr
        ⟨hread, made, later, rfl, hwrite, update_eq_written hread hparent hwrite⟩)

/-! ## What an update changes -/

/-- The locations at which an update of a path may change something. -/
def Touches (workspace : Workspace) (path : String) (location : Location) : Prop :=
  location ∈ workspace.parentTrail path ∨ location = workspace.targetOf path

/-- A change that an update of a path makes: folders along the trail of its parent, and a content
at its target, which is no folder and not on that trail, and can be read then. -/
structure Updates (workspace : Workspace) (path : String) (content : ByteArray)
    (result : Except OutputError WriteStatus) (later : Workspace) : Prop where
  grows : workspace.Grows later
  fresh : ∀ location, later.isFolderAt location = true →
    workspace.isFolderAt location = true ∨
      location ∈ workspace.parentTrail path ∧ later.Inner location
  kept : ∀ location, location ≠ workspace.targetOf path ∨ result ≠ .ok .written →
    later.contentAt? location = workspace.contentAt? location
  free : result = .ok .written → later.isFolderAt (workspace.targetOf path) = false ∧
    HasValidName (workspace.targetOf path)
  outside : result = .ok .written → workspace.targetOf path ∉ workspace.parentTrail path
  done : ∀ status, result = .ok status → later.read? path = some content

theorem targetOf_makeParent (workspace : Workspace) (path : String) :
    (workspace.makeParent path).1.targetOf path = workspace.targetOf path :=
  targetOf_congr (made_makeParent workspace path).1.root

theorem Made.updates {result : Except OutputError WriteStatus}
    (h : workspace.Made (workspace.parentTrail path) made) (hresult : ∀ status, result ≠ .ok status) :
    workspace.Updates path content result made where
  grows := h.grows
  fresh := fun location hlocation => (h.fresh location hlocation).imp id fun hnew =>
    ⟨hnew.1, hnew.2.1⟩
  kept := fun location _ => h.contentAt? location
  free := fun hwritten => absurd hwritten (hresult _)
  outside := fun hwritten => absurd hwritten (hresult _)
  done := fun status hdone => absurd hdone (hresult status)

/-- **What an update changes.** -/
theorem updates_update (workspace : Workspace) (path text : String) :
    workspace.Updates path text.toUTF8 (workspace.update path text).1
      (workspace.update path text).2 := by
  obtain ⟨hmade, hall⟩ := made_makeParent workspace path
  rcases update_cases workspace path text with ⟨hread, heq⟩ | ⟨-, made, hparent, heq⟩ |
    ⟨-, made, hparent, -, heq⟩ | ⟨-, made, later, hparent, hwrite, heq⟩ <;> rw [heq]
  · exact ⟨Grows.refl _, fun _ h => Or.inl h, fun _ _ => rfl, nofun, nofun, fun _ _ => hread⟩
  · rw [hparent] at hmade
    exact hmade.updates nofun
  · rw [hparent] at hmade
    exact hmade.updates nofun
  · rw [hparent] at hmade hall
    obtain ⟨hfree, hvalid, rfl, hread⟩ := spec_of_write? hwrite
    rw [targetOf_congr hmade.root] at hfree hvalid hread ⊢
    refine ⟨hmade.grows.trans ⟨root_putAt _ _ _, fun _ h => by rwa [isFolderAt_putAt],
      fun location h => ?_, fun _ h => Or.inl (by rwa [isFolderAt_putAt] at h)⟩, fun location h => ?_,
      fun location h => ?_, fun _ => ⟨by rwa [isFolderAt_putAt], hvalid⟩, fun _ hin => ?_,
      fun _ _ => hread⟩
    · rw [contentAt?_putAt]
      split_ifs
      · exact Option.some_ne_none _
      · exact h
    · rw [isFolderAt_putAt] at h
      exact (hmade.fresh location h).imp id fun hnew =>
        ⟨hnew.1, hnew.2.1.mono fun _ hf => by rwa [isFolderAt_putAt]⟩
    · rw [contentAt?_putAt, if_neg (h.resolve_right fun hne => hne rfl), hmade.contentAt?]
    · rw [hall rfl _ hin] at hfree
      cases hfree

/-- **An update leaves what it does not touch**, and the folders that are there. -/
theorem Updates.sameAt {result : Except OutputError WriteStatus}
    (h : workspace.Updates path content result later)
    (hapart : workspace.Touches path location → workspace.isFolderAt location = true) :
    workspace.SameAt later location := by
  constructor
  · rw [Bool.eq_iff_iff]
    refine ⟨fun hlater => ?_, h.grows.folder location⟩
    exact (h.fresh location hlater).elim id fun hin => hapart (Or.inl hin.1)
  · apply h.kept
    by_contra hwritten
    rw [not_or, not_not, not_not] at hwritten
    obtain ⟨rfl, hwritten⟩ := hwritten
    have hfolder := h.grows.folder _ (hapart (Or.inr rfl))
    rw [(h.free hwritten).1] at hfolder
    cases hfolder

end Workspace

end TableExport
