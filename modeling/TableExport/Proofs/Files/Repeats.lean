import TableExport.Proofs.Files.Updates

/-!
# Updates among others

An update meets a workspace that other updates have added to. It has the same result as without them
if they leave its own target alone (`Workspace.Meets`, `Workspace.update_congr`), as updates of other
files in the same folder do (`Workspace.Meets.update`). And an update is done once: when it comes
again it changes nothing, and fails if it failed before (`Workspace.update_again`). The latter holds
for workspaces as a file system has them (`Workspace.Sound`), which updates keep
(`Workspace.Updates.sound`).
-/

namespace TableExport

namespace Workspace

open TableExport.Path

variable {workspace made later : Workspace} {location : Location} {path text name : String}
  {parts front : List String} {content : ByteArray}

/-! ## Where a path leads among folders -/

/-- Among folders, a path leads wherever it leads elsewhere. -/
theorem Leads.of_folders (h : workspace.Leads location parts)
    (hfolders : ∀ other ∈ trail location parts, later.isFolderAt other = true) :
    later.Leads location parts := by
  induction parts generalizing location with
  | nil => trivial
  | cons part rest ih =>
    obtain ⟨⟨-, hup, -⟩, hrest⟩ := h
    refine ⟨⟨hfolders _ List.mem_cons_self, hup, fun _ => ?_⟩,
      ih hrest fun other hother => hfolders other (List.mem_cons_of_mem _ hother)⟩
    rw [Workspace.existsAt, hfolders _ (List.mem_cons_of_mem _ start_mem_trail), Bool.true_or]

/-- A path leads through folders. -/
theorem Leads.isFolderAt (h : workspace.Leads location (front ++ [name])) :
    ∀ other ∈ trail location front, workspace.isFolderAt other = true := by
  induction front generalizing location with
  | nil =>
    intro other hother
    rw [List.mem_singleton.1 hother]
    exact h.1.1
  | cons part rest ih => exact List.forall_mem_cons.2 ⟨h.1.1, ih h.2⟩

/-- Where the folders of a path can be made, the path leads along the trail of its parent. -/
theorem trail_front_subset_parentTrail (hparts : workspace.partsOf? path = some (front ++ [name]))
    (hname : IsName name) (hmade : (workspace.makeParent path).2 = true) :
    trail [] front ⊆ workspace.parentTrail path := by
  obtain ⟨parent, hparent⟩ := exists_parent_of_partsOf? hparts hname
  rw [makeParent, hparent] at hmade
  simp only [makeFolders] at hmade
  split at hmade
  · rename_i parts hat
    rw [parentTrail, hparent, Option.map_some, Option.getD_some, trailOf, hat]
    exact trail_front_subset hparts hname hparent hat
  · cases hmade

/-- Where a file can be written, it can be written in any workspace with the folders of its path. -/
theorem exists_write? {other : ByteArray} (h : made.write? path content = some later)
    (hroot : workspace.root = made.root)
    (hfront : ∀ front name, made.partsOf? path = some (front ++ [name]) → IsName name →
      ∀ location ∈ trail [] front, workspace.isFolderAt location = true)
    (hfree : workspace.isFolderAt (made.targetOf path) = false) :
    ∃ written, workspace.write? path other = some written := by
  obtain ⟨front, name, hparts, hname, hvalid, hleads, -, -, -⟩ := write?_eq_some.1 h
  have hfolders := hfront front name hparts hname
  rw [targetOf_of_parts hparts hname] at hfree
  exact ⟨_, write?_eq_some.2 ⟨front, name, (partsOf?_congr hroot).trans hparts, hname, hvalid,
    hleads.of_folders hfolders, hfolders _ target_mem_trail, hfree, rfl⟩⟩

theorem parentTrail_congr (hroot : later.root = workspace.root) :
    later.parentTrail path = workspace.parentTrail path := by
  rw [parentTrail, parentTrail]
  cases parent? path with
  | none => rfl
  | some parent => exact trailOf_congr hroot

/-! ## Paths apart -/

instance (workspace : Workspace) (path : String) (location : Location) :
    Decidable (workspace.Touches path location) := inferInstanceAs (Decidable (_ ∨ _))

/-- Updates of a path do not matter to what another leads to: where they may change something on its
trail, there is a folder already. -/
def Apart (workspace : Workspace) (path other : String) : Prop :=
  ∀ location ∈ workspace.trailOf other, workspace.Touches path location →
    workspace.isFolderAt location = true

instance (workspace : Workspace) (path other : String) : Decidable (workspace.Apart path other) :=
  inferInstanceAs (Decidable (∀ location ∈ workspace.trailOf other, _))

theorem Apart.mono {other : String} (h : workspace.Apart path other)
    (hgrows : workspace.Grows later) : later.Apart path other := by
  intro location hlocation htouches
  rw [trailOf_congr hgrows.root] at hlocation
  rw [Touches, parentTrail_congr hgrows.root, targetOf_congr hgrows.root] at htouches
  exact hgrows.folder _ (h location hlocation htouches)

/-- **An update leaves what a path apart leads to.** -/
theorem Apart.read?_update {other : String} (h : workspace.Apart path other) (text : String) :
    (workspace.update path text).2.read? other = workspace.read? other :=
  have hupdates := updates_update workspace path text
  read?_congr hupdates.grows.root fun location hlocation =>
    hupdates.sameAt (h location hlocation)

/-! ## The same result -/

/-- The result of an update by what it meets. -/
theorem update_fst (workspace : Workspace) (path text : String) :
    (workspace.update path text).1 =
      if workspace.read? path = some text.toUTF8 then .ok .skipped
      else if (workspace.makeParent path).2 = false then
        .error (.folder ((parent? path).getD ""))
      else if ((workspace.makeParent path).1.write? path text.toUTF8).isSome then .ok .written
      else .error (.file path) := by
  rcases update_cases workspace path text with ⟨hread, heq⟩ | ⟨hread, made, hparent, heq⟩ |
    ⟨hread, made, hparent, hwrite, heq⟩ | ⟨hread, made, later, hparent, hwrite, heq⟩
  · rw [heq, if_pos hread]
  · rw [heq, if_neg hread, hparent, if_pos rfl]
  · rw [heq, if_neg hread, hparent, if_neg (by simp), hwrite, if_neg (by simp)]
  · rw [heq, if_neg hread, hparent, if_neg (by simp), hwrite, Option.isSome_some, if_pos rfl]

/-- Where the folders of a path are made, so are those on its trail. -/
theorem isFolderAt_makeParent (hmade : (workspace.makeParent path).2 = true)
    (hparts : workspace.partsOf? path = some (front ++ [name])) (hname : IsName name) :
    ∀ location ∈ trail [] front, (workspace.makeParent path).1.isFolderAt location = true :=
  fun location hlocation => (made_makeParent workspace path).2 hmade location
    (trail_front_subset_parentTrail hparts hname hmade hlocation)

/-- A file can be written in two workspaces alike once its folders are made, if its target is a
folder in both or in none. -/
theorem isSome_write?_congr (hroot : later.root = workspace.root)
    (hmade : (workspace.makeParent path).2 = true) (hmade' : (later.makeParent path).2 = true)
    (hfree : (later.makeParent path).1.isFolderAt (workspace.targetOf path) =
      (workspace.makeParent path).1.isFolderAt (workspace.targetOf path)) :
    ((later.makeParent path).1.write? path content).isSome =
      ((workspace.makeParent path).1.write? path content).isSome := by
  have hroot₁ := (made_makeParent workspace path).1.root
  have hroot₂ := (made_makeParent later path).1.root
  have htarget : (workspace.makeParent path).1.targetOf path = workspace.targetOf path :=
    targetOf_congr hroot₁
  have htarget' : (later.makeParent path).1.targetOf path = workspace.targetOf path :=
    targetOf_congr (hroot₂.trans hroot)
  rw [Bool.eq_iff_iff, Option.isSome_iff_exists, Option.isSome_iff_exists]
  constructor
  · rintro ⟨written, hwritten⟩
    refine exists_write? hwritten (hroot₁.trans (hroot₂.trans hroot).symm) ?_ ?_
    · intro front name hparts hname
      rw [partsOf?_congr (hroot₂.trans hroot)] at hparts
      exact isFolderAt_makeParent hmade hparts hname
    · rw [htarget', ← hfree, ← htarget']
      exact (spec_of_write? hwritten).1
  · rintro ⟨written, hwritten⟩
    refine exists_write? hwritten ((hroot₂.trans hroot).trans hroot₁.symm) ?_ ?_
    · intro front name hparts hname
      rw [partsOf?_congr (hroot₁.trans hroot.symm)] at hparts
      exact isFolderAt_makeParent hmade' hparts hname
    · rw [htarget, hfree, ← htarget]
      exact (spec_of_write? hwritten).1

/-- Whether the folders of a path can be made stays the same. -/
theorem makeParent_congr (h : workspace.Grows later)
    (hfiles : ∀ location ∈ workspace.parentTrail path, workspace.contentAt? location = none →
      later.contentAt? location = none) :
    (later.makeParent path).2 = (workspace.makeParent path).2 := by
  rw [parentTrail] at hfiles
  rw [makeParent, makeParent]
  cases hparent : parent? path with
  | none => rfl
  | some parent =>
    rw [hparent, Option.map_some, Option.getD_some, trailOf] at hfiles
    simp only [makeFolders, partsOf?_congr h.root]
    cases hparts : workspace.partsOf? parent with
    | none => rfl
    | some parts =>
      rw [hparts] at hfiles
      exact makeAlong_congr workspace.inner_nil h hfiles

/-- What an update of a path meets: others have added to the workspace, but no file where the update
would make a folder, and no folder or file at its target. -/
structure Meets (workspace : Workspace) (path : String) (later : Workspace) : Prop where
  grows : workspace.Grows later
  files : ∀ location ∈ workspace.parentTrail path, workspace.contentAt? location = none →
    later.contentAt? location = none
  target : later.contentAt? (workspace.targetOf path) =
    workspace.contentAt? (workspace.targetOf path)
  folder : later.isFolderAt (workspace.targetOf path) = true →
    workspace.isFolderAt (workspace.targetOf path) = true ∨
      workspace.targetOf path ∈ workspace.parentTrail path

theorem Meets.refl (workspace : Workspace) (path : String) : workspace.Meets path workspace :=
  ⟨Grows.refl _, fun _ _ h => h, rfl, Or.inl⟩

/-- A file is found under its path if there is one. -/
def Finds (workspace : Workspace) (path : String) : Prop :=
  workspace.contentAt? (workspace.targetOf path) ≠ none → workspace.LeadsTo path

/-- What a path leads to stays the same if its content does, and it is found. -/
theorem read?_eq_of_finds (h : workspace.Grows later)
    (hcontent : later.contentAt? (workspace.targetOf path) =
      workspace.contentAt? (workspace.targetOf path)) (hfound : workspace.Finds path) :
    later.read? path = workspace.read? path := by
  ext content
  rw [read?_eq_some, read?_eq_some, targetOf_congr h.root, hcontent]
  constructor
  · rintro ⟨-, hsome⟩
    exact ⟨hfound (by simp [hsome]), hsome⟩
  · exact fun ⟨hleads, hsome⟩ => ⟨h.leadsTo hleads, hsome⟩

/-- **An update has the same result among others** that leave its target alone, if a file that is
at its target is found there. -/
theorem update_congr (h : workspace.Meets path later) (hfound : workspace.Finds path)
    (text : String) : (later.update path text).1 = (workspace.update path text).1 := by
  have hflag := makeParent_congr h.grows h.files
  rw [update_fst, update_fst, read?_eq_of_finds h.grows h.target hfound, hflag]
  by_cases hmade : (workspace.makeParent path).2 = true
  · have hmade' := hflag.trans hmade
    rw [isSome_write?_congr h.grows.root hmade hmade' ?_]
    -- a folder at the target was there, or both have made it
    obtain ⟨hnew, hall⟩ := made_makeParent workspace path
    obtain ⟨hnew', hall'⟩ := made_makeParent later path
    rw [parentTrail_congr h.grows.root] at hnew' hall'
    rw [Bool.eq_iff_iff]
    constructor
    · intro hfree
      rcases hnew'.fresh _ hfree with hthere | hin
      · exact (h.folder hthere).elim (hnew.folder _) (hall hmade _)
      · exact hall hmade _ hin.1
    · intro hfree
      rcases hnew.fresh _ hfree with hthere | hin
      · exact hnew'.folder _ (h.grows.folder _ hthere)
      · exact hall' hmade' _ hin.1
  · rw [Bool.not_eq_true] at hmade
    rw [hmade, if_pos rfl, if_pos rfl]

/-- Two paths of different files in one folder. A path without a name has the root as its target. -/
def Siblings (workspace : Workspace) (path other : String) : Prop :=
  workspace.parentTrail path = workspace.parentTrail other ∧
    (workspace.targetOf path = workspace.targetOf other → workspace.targetOf path = [])

/-- A file that is written is not at the root. -/
theorem Updates.target_ne_nil {result : Except OutputError WriteStatus}
    (h : workspace.Updates path content result later) (hwritten : result = .ok .written) :
    workspace.targetOf path ≠ [] := by
  intro hnil
  have hfree := (h.free hwritten).1
  rw [hnil] at hfree
  cases hfree

/-- An update of one path leaves the content at the target of another. -/
theorem Updates.contentAt?_targetOf {result : Except OutputError WriteStatus} {other : String}
    (h : workspace.Updates other content result later)
    (hne : workspace.targetOf path = workspace.targetOf other → workspace.targetOf path = []) :
    later.contentAt? (workspace.targetOf path) =
      workspace.contentAt? (workspace.targetOf path) := by
  refine h.kept _ ?_
  by_contra hboth
  rw [not_or, not_not, not_not] at hboth
  exact h.target_ne_nil hboth.2 (hboth.1 ▸ hne hboth.1)

/-- Updates of other files in the folder do not matter. -/
theorem Meets.update {other : String} (h : workspace.Meets path later)
    (hsiblings : workspace.Siblings path other) (text : String) :
    workspace.Meets path (later.update other text).2 := by
  obtain ⟨hfolder, hne⟩ := hsiblings
  have hupdates := updates_update later other text
  have htarget : ∀ path, later.targetOf path = workspace.targetOf path :=
    fun path => targetOf_congr h.grows.root
  refine ⟨h.grows.trans hupdates.grows, fun location hin hnone => ?_, ?_, fun hlater => ?_⟩
  · rw [hupdates.kept location, h.files location hin hnone]
    by_contra hboth
    rw [not_or, not_not, not_not] at hboth
    refine hupdates.outside hboth.2 ?_
    rwa [parentTrail_congr h.grows.root, ← hfolder, ← hboth.1]
  · rw [← htarget path, hupdates.contentAt?_targetOf (by simpa only [htarget] using hne), htarget,
      h.target]
  · rcases hupdates.fresh _ hlater with hthere | hin
    · exact h.folder hthere
    · rw [parentTrail_congr h.grows.root, ← hfolder] at hin
      exact Or.inr hin.1

/-! ## Workspaces of a file system -/

/-- A workspace as a file system has it: no file is a folder, each has a name that a file system
takes, and folders lie in folders. -/
structure Sound (workspace : Workspace) : Prop where
  file : ∀ location, workspace.contentAt? location ≠ none →
    workspace.isFolderAt location = false ∧ HasValidName location
  folder : ∀ location, workspace.isFolderAt location = true → workspace.Inner location

/-- An update keeps a workspace sound. -/
theorem Updates.sound {result : Except OutputError WriteStatus}
    (h : workspace.Updates path content result later) (hsound : workspace.Sound) : later.Sound where
  file := fun location hcontent => by
    by_cases hkept : location ≠ workspace.targetOf path ∨ result ≠ .ok .written
    · rw [h.kept location hkept] at hcontent
      obtain ⟨hfile, hvalid⟩ := hsound.file location hcontent
      exact ⟨h.grows.isFolderAt_eq_false hfile (Or.inl hcontent), hvalid⟩
    · rw [not_or, not_not, not_not] at hkept
      rw [hkept.1]
      exact h.free hkept.2
  folder := fun location hfolder => (h.fresh location hfolder).elim
    (fun hthere => (hsound.folder location hthere).mono h.grows.folder) (fun hnew => hnew.2)

/-- A path that leads to a file has a name at its end. -/
theorem Sound.exists_name (hsound : workspace.Sound) (hread : workspace.read? path = some content) :
    ∃ front name, workspace.partsOf? path = some (front ++ [name]) ∧ IsName name ∧
      workspace.Leads [] (front ++ [name]) := by
  obtain ⟨⟨-, parts, hparts, hleads⟩, hcontent⟩ := read?_eq_some.1 hread
  have hfile := (hsound.file _ (Option.ne_none_iff_exists'.2 ⟨_, hcontent⟩)).1
  rw [targetOf, hparts, Option.map_some, Option.getD_some] at hfile
  rcases List.eq_nil_or_concat parts with rfl | ⟨front, name, rfl⟩
  · cases hfile
  · rw [List.concat_eq_append] at hparts hleads hfile
    refine ⟨front, name, hparts, ?_, hleads⟩
    -- any other part at the end leads to a folder
    have hat : workspace.isFolderAt (target [] front) = true :=
      hleads.isFolderAt _ target_mem_trail
    rw [target_append, target_cons, target_nil] at hfile
    by_contra hname
    rw [descend] at hfile
    split_ifs at hfile with hstay hup
    · rw [hat] at hfile
      cases hfile
    · have hparent := hsound.folder _ hat _ (List.dropLast_prefix _)
      rw [hfile] at hparent
      cases hparent
    · exact hname ⟨(not_or.1 hstay).1, (not_or.1 hstay).2, hup⟩

/-! ## Updates that come again -/

/-- Nothing is made along a path that leads through folders. -/
theorem makeAlong_of_leads {location : Location} (h : workspace.Leads location parts)
    (hfolders : ∀ other ∈ trail location parts, workspace.isFolderAt other = true) :
    workspace.makeAlong location parts = (workspace, true) := by
  induction parts generalizing location with
  | nil => rfl
  | cons part rest ih =>
    obtain ⟨⟨-, hup, -⟩, hrest⟩ := h
    have hnext := List.forall_mem_cons.1 hfolders
    rw [makeAlong_cons, if_neg fun h => hup h.1 h.2,
      if_neg (by simp [hnext.2 _ start_mem_trail]), ih hrest hnext.2]

/-- The folders of a path are made once. -/
theorem makeParent_again (h : (workspace.makeParent path).1.Grows later) :
    later.makeParent path = (later, (workspace.makeParent path).2) := by
  have hroot := h.root.trans (made_makeParent workspace path).1.root
  rw [makeParent] at h
  rw [makeParent, makeParent]
  cases hparent : parent? path with
  | none => rfl
  | some parent =>
    rw [hparent] at h
    simp only [makeFolders, partsOf?_congr hroot] at h ⊢
    cases hparts : workspace.partsOf? parent with
    | none => rfl
    | some parts =>
      rw [hparts] at h
      exact makeAlong_again workspace.inner_nil h

/-- A file that is there, but not found, has folders that can be made. -/
theorem makeParent_of_found (hsound : later.Sound) (hlater : later.read? path = some content)
    (h : (workspace.makeParent path).1.Grows later)
    (hcontent : workspace.contentAt? (workspace.targetOf path) = some content)
    (hread : workspace.read? path ≠ some content) : (workspace.makeParent path).2 = true := by
  have hroot := h.root.trans (made_makeParent workspace path).1.root
  obtain ⟨front, name, hparts, hname, hleads⟩ := hsound.exists_name hlater
  have hne := (read?_eq_some.1 hlater).1.1
  rw [partsOf?_congr hroot] at hparts
  obtain ⟨parent, hparent⟩ := exists_parent_of_partsOf? hparts hname
  rcases partsOf?_parent hparts hname hparent with hstays | ⟨parts, staying, hat, -, rfl⟩
  · -- the file lies at the root, where it is found
    have htarget := targetOf_of_parts hparts hname
    have hfront : ∀ other ∈ trail [] front, workspace.isFolderAt other = true := by
      intro other hother
      rw [eq_of_mem_trail_of_stays hstays hother]
      rfl
    have hup := leads_append.1 hleads
    refine absurd (read?_eq_some.2 ⟨⟨hne, _, hparts, leads_append.2
      ⟨hup.1.of_folders hfront, ⟨hfront _ target_mem_trail, hup.2.1.2.1, fun _ => ?_⟩, trivial⟩⟩,
      hcontent⟩) hread
    rw [descend_of_isName hname, ← htarget, Workspace.existsAt, hcontent]
    simp
  · -- the path leads through the parent by now, so nothing had to fail
    have hthrough : later.makeParent path = (later, true) := by
      simp only [makeParent, hparent, makeFolders, partsOf?_congr hroot, hat]
      have hfolders := hleads.isFolderAt
      rw [List.append_assoc, leads_append] at hleads
      exact makeAlong_of_leads hleads.1 fun other hother =>
        hfolders other (mem_trail_append.2 (Or.inl hother))
    rw [makeParent_again h] at hthrough
    exact congrArg Prod.snd hthrough

/-- A file that is there can be written, once the folders of its path are made. -/
theorem exists_write?_of_found (hsound : later.Sound) (hlater : later.read? path = some content)
    (h : (workspace.makeParent path).1.Grows later)
    (hmade : (workspace.makeParent path).2 = true) (other : ByteArray) :
    ∃ written, (workspace.makeParent path).1.write? path other = some written := by
  obtain ⟨front, name, hparts, hname, hleads⟩ := hsound.exists_name hlater
  have hfile := (read?_eq_some.1 hlater).2
  have htarget := targetOf_of_parts hparts hname
  obtain ⟨hfree, hvalid⟩ := hsound.file _ (Option.ne_none_iff_exists'.2 ⟨_, hfile⟩)
  rw [htarget, ← descend_of_isName hname] at hvalid
  rw [htarget] at hfree
  have hroot := h.root.trans (made_makeParent workspace path).1.root
  have hfolders : ∀ location ∈ trail [] front,
      (workspace.makeParent path).1.isFolderAt location = true :=
    isFolderAt_makeParent hmade (by rwa [← partsOf?_congr hroot]) hname
  refine ⟨_, write?_eq_some.2 ⟨front, name, ?_, hname, (hasValidName_descend hname).1 hvalid,
    (leads_append.1 hleads).1.of_folders hfolders, hfolders _ target_mem_trail, ?_, rfl⟩⟩
  · rwa [← partsOf?_congr h.root]
  · by_contra hfolder
    rw [h.folder _ (by simpa using hfolder)] at hfree
    cases hfree

/-- The result of an update that comes again. -/
def again {ε : Type} (result : Except ε WriteStatus) : Except ε WriteStatus :=
  result.map fun _ => .skipped

/-- An update that could not make its folders cannot make them later. -/
theorem update_again_of_folders (hsound : later.Sound)
    (h : (workspace.makeParent path).1.Grows later)
    (hmade : (workspace.makeParent path).2 = false)
    (hkept : later.read? path = some text.toUTF8 →
      workspace.contentAt? (workspace.targetOf path) = some text.toUTF8)
    (hread : workspace.read? path ≠ some text.toUTF8) :
    later.update path text = (.error (.folder ((parent? path).getD "")), later) := by
  refine update_eq_folder (fun hlater => ?_) (by rw [makeParent_again h, hmade])
  rw [makeParent_of_found hsound hlater h (hkept hlater) hread] at hmade
  cases hmade

/-- An update that could not write its file, with all folders made, cannot write it later. -/
theorem update_again_of_file (hsound : later.Sound)
    (h : (workspace.makeParent path).1.Grows later)
    (hmade : (workspace.makeParent path).2 = true)
    (hwrite : (workspace.makeParent path).1.write? path text.toUTF8 = none) :
    later.update path text = (.error (.file path), later) := by
  have hnever : ∀ written,
      (workspace.makeParent path).1.write? path text.toUTF8 ≠ some written := by
    rw [hwrite]
    exact nofun
  refine update_eq_file (fun hlater => ?_) (by rw [makeParent_again h, hmade])
    (Option.eq_none_iff_forall_ne_some.2 fun written hwritten => ?_)
  · obtain ⟨written, hwritten⟩ := exists_write?_of_found hsound hlater h hmade text.toUTF8
    exact hnever written hwritten
  · have hroot := h.root.trans (made_makeParent workspace path).1.root
    have hfree : (workspace.makeParent path).1.isFolderAt (later.targetOf path) = false := by
      by_contra hfolder
      have hlater := (spec_of_write? hwritten).1
      rw [h.folder _ (by simpa using hfolder)] at hlater
      cases hlater
    obtain ⟨earlier, hearlier⟩ :
        ∃ earlier, (workspace.makeParent path).1.write? path text.toUTF8 = some earlier :=
      exists_write? hwritten h.root.symm (fun front name hparts hname =>
        isFolderAt_makeParent hmade (by rwa [← partsOf?_congr hroot]) hname) hfree
    exact hnever earlier hearlier

/-- **An update is done once.** When it comes again in a workspace to which more was added, and
nothing at its target, it changes nothing, and it fails if it failed before. -/
theorem update_again (text : String) (h : (workspace.update path text).2.Grows later)
    (hcontent : later.contentAt? (workspace.targetOf path) =
      (workspace.update path text).2.contentAt? (workspace.targetOf path))
    (hsound : later.Sound) :
    later.update path text = (again (workspace.update path text).1, later) := by
  have hupdates := updates_update workspace path text
  have hroot := h.root.trans hupdates.grows.root
  have hdone : ∀ status, (workspace.update path text).1 = .ok status →
      later.update path text = (.ok .skipped, later) := by
    intro status hstatus
    obtain ⟨hleads, hsome⟩ := read?_eq_some.1 (hupdates.done status hstatus)
    rw [targetOf_congr hupdates.grows.root] at hsome
    refine update_eq_skipped (read?_eq_some.2 ⟨h.leadsTo hleads, ?_⟩)
    rw [targetOf_congr hroot, hcontent, hsome]
  -- after a failure the file has the content that it had before
  have hkept : ∀ e, (workspace.update path text).1 = .error e →
      later.read? path = some text.toUTF8 →
      workspace.contentAt? (workspace.targetOf path) = some text.toUTF8 := by
    intro e he hlater
    rw [← hupdates.kept _ (Or.inr (by rw [he]; rintro ⟨⟩)), ← hcontent, ← targetOf_congr hroot]
    exact (read?_eq_some.1 hlater).2
  rcases update_cases workspace path text with ⟨-, heq⟩ | ⟨hread, made, hparent, heq⟩ |
    ⟨-, made, hparent, hwrite, heq⟩ | ⟨-, made, written, -, -, heq⟩
  · rw [hdone .skipped (by rw [heq]), heq]
    rfl
  · rw [heq] at h hkept ⊢
    exact update_again_of_folders hsound (by rwa [hparent]) (by rw [hparent]) (hkept _ rfl) hread
  · rw [heq] at h ⊢
    exact update_again_of_file hsound (by rwa [hparent]) (by rw [hparent]) (by rwa [hparent])
  · rw [hdone .written (by rw [heq]), heq]
    rfl

end Workspace

end TableExport
