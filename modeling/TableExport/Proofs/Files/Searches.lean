import TableExport.Files.Search
import TableExport.Proofs.Files.Repeats

/-!
# What a search looks at

A search asks where paths lead, and what lies in folders (`Workspace.looks`). It finds the same in a
workspace in which all this is the same (`Workspace.search_congr`). An update that makes nothing in
those folders, and is apart from those paths, leaves it so (`Look.Clear.same`).
-/

namespace TableExport

namespace Workspace

open TableExport.Path

variable {workspace made later : Workspace} {folder path text : String} {location : Location}

/-- A path at which a search looks. -/
structure Look where
  path : String
  /-- Whether it looks at what lies in the folder as well. -/
  inside : Bool

/-- A look finds the same in two workspaces. -/
structure Look.Same (workspace later : Workspace) (look : Look) : Prop where
  hasPath : later.hasPath look.path = workspace.hasPath look.path
  isFolder : later.isFolder look.path = workspace.isFolder look.path
  isFile : later.isFile look.path = workspace.isFile look.path
  inside : look.inside = true → later.pathsIn look.path = workspace.pathsIn look.path ∧
    later.pathsBelow look.path = workspace.pathsBelow look.path

theorem Look.Same.refl (workspace : Workspace) (look : Look) : look.Same workspace workspace :=
  ⟨rfl, rfl, rfl, fun _ => ⟨rfl, rfl⟩⟩

theorem Look.Same.trans {look : Look} (h : look.Same workspace made) (h' : look.Same made later) :
    look.Same workspace later :=
  ⟨h'.hasPath.trans h.hasPath, h'.isFolder.trans h.isFolder, h'.isFile.trans h.isFile, fun hinside =>
    ⟨(h'.inside hinside).1.trans (h.inside hinside).1,
      (h'.inside hinside).2.trans (h.inside hinside).2⟩⟩

/-! ## Looks of a search -/

/-- The paths among some that fit a part. -/
def fitting (part : SearchPart) (paths : List String) : List String :=
  paths.filter fun path => part.fits ((fileName? path).getD "")

/-- The paths that a wildcard finds in a folder. -/
def wildcardPaths (workspace : Workspace) (folder : String) (pattern : Wildcard) : List String :=
  fitting (.wildcard pattern) (workspace.pathsIn folder) ++ pointPaths folder pattern

mutual

/-- What a search from a folder looks at. -/
def looks (workspace : Workspace) (folder : String) : List SearchPart → List Look
  | [] => []
  | .name text :: rest =>
    ⟨folder, false⟩ :: ⟨inFolder folder text, false⟩ :: looks workspace (inFolder folder text) rest
  | .wildcard pattern :: rest =>
    ⟨folder, true⟩ :: (workspace.wildcardPaths folder pattern).flatMap fun path =>
      looks workspace path rest
  | .anyFolders :: rest => ⟨folder, true⟩ :: looksAmong workspace (workspace.pathsBelow folder) rest

/-- What a search among candidates looks at. -/
def looksAmong (workspace : Workspace) (candidates : List String) : List SearchPart → List Look
  | [] => candidates.map (⟨·, false⟩)
  | .anyFolders :: rest => looksAmong workspace candidates rest
  | part :: rest => (fitting part candidates).flatMap fun path => looks workspace path rest

end

theorem search_wildcard (workspace : Workspace) (folder : String) (pattern : Wildcard)
    (rest : List SearchPart) :
    workspace.search folder (.wildcard pattern :: rest) =
      if !workspace.isFolder folder then []
      else if rest.isEmpty then workspace.wildcardPaths folder pattern
      else (workspace.wildcardPaths folder pattern).flatMap fun path =>
        workspace.search path rest := by
  rw [search]
  rfl

/-- Searches are the same from each of some paths if all their looks are. -/
theorem flatMap_search_congr {paths : List String} {rest : List SearchPart}
    (hrest : ∀ path, (∀ look ∈ workspace.looks path rest, look.Same workspace later) →
      later.search path rest = workspace.search path rest)
    (h : ∀ look ∈ paths.flatMap fun path => workspace.looks path rest,
      look.Same workspace later) :
    (paths.flatMap fun path => later.search path rest) =
      paths.flatMap fun path => workspace.search path rest :=
  List.flatMap_congr fun path hpath => hrest path fun look hlook =>
    h look (List.mem_flatMap.2 ⟨path, hpath, hlook⟩)

theorem searchAmong_cons_congr {candidates : List String} {part : SearchPart}
    {rest : List SearchPart} (hpart : part ≠ .anyFolders)
    (hrest : ∀ path, (∀ look ∈ workspace.looks path rest, look.Same workspace later) →
      later.search path rest = workspace.search path rest)
    (h : ∀ look ∈ workspace.looksAmong candidates (part :: rest), look.Same workspace later) :
    later.searchAmong candidates (part :: rest) =
      workspace.searchAmong candidates (part :: rest) := by
  cases part with
  | anyFolders => exact absurd rfl hpart
  | name text =>
    simp only [looksAmong, fitting] at h
    simp only [searchAmong, flatMap_search_congr hrest h]
  | wildcard pattern =>
    simp only [looksAmong, fitting] at h
    simp only [searchAmong, flatMap_search_congr hrest h]

mutual

/-- **A search finds the same where it looks at the same.** -/
theorem search_congr {folder : String} : {parts : List SearchPart} →
    (∀ look ∈ workspace.looks folder parts, look.Same workspace later) →
    later.search folder parts = workspace.search folder parts
  | [], _ => rfl
  | .name text :: rest, h => by
    rw [looks] at h
    obtain ⟨hfolder, hnext, hrest⟩ :=
      (List.forall_mem_cons.1 h).imp id fun h => List.forall_mem_cons.1 h
    simp only [search, hfolder.isFolder, hnext.hasPath, search_congr hrest]
  | .wildcard pattern :: rest, h => by
    rw [looks] at h
    obtain ⟨hfolder, hrest⟩ := List.forall_mem_cons.1 h
    have hpaths : later.wildcardPaths folder pattern = workspace.wildcardPaths folder pattern := by
      rw [wildcardPaths, wildcardPaths, (hfolder.inside rfl).1]
    rw [search_wildcard, search_wildcard, hfolder.isFolder, hpaths,
      flatMap_search_congr (fun _ => search_congr) hrest]
  | .anyFolders :: rest, h => by
    rw [looks] at h
    obtain ⟨hfolder, hrest⟩ := List.forall_mem_cons.1 h
    rw [search, search, (hfolder.inside rfl).2, searchAmong_congr hrest]

theorem searchAmong_congr {candidates : List String} : {parts : List SearchPart} →
    (∀ look ∈ workspace.looksAmong candidates parts, look.Same workspace later) →
    later.searchAmong candidates parts = workspace.searchAmong candidates parts
  | [], h => by
    rw [searchAmong, searchAmong]
    refine List.filter_congr fun path hpath => ?_
    exact (h ⟨path, false⟩ (by rw [looksAmong]; exact List.mem_map_of_mem hpath)).isFolder
  | .anyFolders :: rest, h => by
    rw [looksAmong] at h
    rw [searchAmong, searchAmong, searchAmong_congr h]
  | .name _ :: _, h => searchAmong_cons_congr nofun (fun _ => search_congr) h
  | .wildcard _ :: _, h => searchAmong_cons_congr nofun (fun _ => search_congr) h

end

/-- What the listing of a folder looks at. -/
def listLooks (workspace : Workspace) (folder pattern : String) : List Look :=
  match SearchPart.ofPattern? pattern, workspace.searchStart? folder with
  | some parts, some (start, names) => workspace.looks start (names ++ parts) ++
      (workspace.search start (names ++ parts)).map (⟨·, false⟩)
  | _, _ => []

/-- **A folder lists the same where the listing looks at the same.** -/
theorem list?_congr {pattern : String} (hroot : later.root = workspace.root)
    (h : ∀ look ∈ workspace.listLooks folder pattern, look.Same workspace later) :
    later.list? folder pattern = workspace.list? folder pattern := by
  have hstart : later.searchStart? folder = workspace.searchStart? folder := by
    rw [searchStart?, searchStart?, hroot]
  rw [list?, list?, hstart]
  rw [listLooks] at h
  cases hparts : SearchPart.ofPattern? pattern with
  | none => rfl
  | some parts =>
    cases hfound : workspace.searchStart? folder with
    | none => rfl
    | some found =>
      obtain ⟨start, names⟩ := found
      simp only [hparts, hfound, List.forall_mem_append, List.forall_mem_map] at h
      simp only [Option.map_some, search_congr h.1]
      split_ifs
      · rfl
      · refine congrArg (fun paths => some (paths.mergeSort before)) (List.filter_congr ?_)
        intro path hpath
        rw [(h.2 path hpath).isFile]

/-- A search for a wildcard in a folder. -/
theorem search_folder {start name inner : String} {pattern : Wildcard} {location : Location}
    (hname : name ≠ "." ∧ name ≠ "..") (hinner : inFolder start name = inner)
    (hlocate : workspace.locate? inner = some location)
    (hfolder : workspace.isFolderAt location = true) :
    workspace.search start [.name name, .wildcard pattern] =
        workspace.wildcardPaths inner pattern ∧
      workspace.looks start [.name name, .wildcard pattern] =
        [⟨start, false⟩, ⟨inner, false⟩, ⟨inner, true⟩] := by
  have hthere : workspace.isFolder inner = true := by
    rw [isFolder, hlocate, Option.map_some, Option.getD_some, hfolder]
  have hpath : workspace.hasPath inner = true := by
    rw [hasPath, hlocate]
    rfl
  constructor
  · rw [search.eq_def]
    simp only [hinner, hname, or_self, if_false, hpath, Bool.not_true, Bool.false_eq_true,
      List.isEmpty_cons]
    rw [search_wildcard, if_neg (by simp [hthere]), if_pos List.isEmpty_nil]
  · simp [looks, hinner]

/-- A listing whose search finds files in order. -/
theorem list?_of_search {start pattern : String} {names parts : List SearchPart}
    {found : List String} (hparts : SearchPart.ofPattern? pattern = some parts)
    (hstart : workspace.searchStart? folder = some (start, names))
    (hpattern : (pattern.isEmpty || pattern.toList.getLast? == some '/') = false)
    (hfound : workspace.search start (names ++ parts) = found)
    (hfiles : ∀ path ∈ found, workspace.isFile path = true ∧
      ((fileName? path).getD "").toList.head? ≠ some '~')
    (hsorted : found.Pairwise fun first second => before first second = true) :
    workspace.list? folder pattern = some found ∧
      workspace.listLooks folder pattern =
        workspace.looks start (names ++ parts) ++ found.map (⟨·, false⟩) := by
  have hkept : (found.filter fun path =>
      workspace.isFile path && ((fileName? path).getD "").toList.head? != some '~') = found := by
    refine List.filter_eq_self.2 fun path hpath => ?_
    rw [Bool.and_eq_true, bne_iff_ne]
    exact hfiles path hpath
  constructor
  · simp only [list?, hparts, Option.map_some, hstart, hpattern, hfound, Bool.false_eq_true,
      if_false, hkept, List.mergeSort_of_pairwise hsorted]
  · simp only [listLooks, hparts, hstart, hfound]

/-- The listing of a folder by a wildcard, where all that fits is a file in order. -/
theorem list?_in_folder {start name inner pattern : String} {wildcard : Wildcard}
    {names found : List String} (hparts : SearchPart.ofPattern? pattern = some [.wildcard wildcard])
    (hstart : workspace.searchStart? folder = some (start, [.name name]))
    (hpattern : (pattern.isEmpty || pattern.toList.getLast? == some '/') = false)
    (hname : name ≠ "." ∧ name ≠ "..") (hinner : inFolder start name = inner)
    (hlocate : workspace.locate? inner = some location)
    (hfolder : workspace.isFolderAt location = true) (hnames : workspace.namesIn location = names)
    (hfit : fitting (.wildcard wildcard) (names.map (inFolder inner)) ++
      pointPaths inner wildcard = found)
    (hfiles : ∀ path ∈ found, ∃ content, workspace.read? path = some content)
    (hlocks : ∀ path ∈ found, ((fileName? path).getD "").toList.head? ≠ some '~')
    (hsorted : found.Pairwise fun first second => before first second = true) :
    workspace.list? folder pattern = some found ∧
      workspace.listLooks folder pattern =
        [⟨start, false⟩, ⟨inner, false⟩, ⟨inner, true⟩] ++ found.map (⟨·, false⟩) := by
  obtain ⟨hsearch, hlooks⟩ : workspace.search start [.name name, .wildcard wildcard] = _ ∧ _ :=
    search_folder hname hinner hlocate hfolder
  have hfound : workspace.search start [.name name, .wildcard wildcard] = found := by
    rw [hsearch, wildcardPaths, pathsIn, hlocate]
    simp only [hnames, hfit]
  have hlist := list?_of_search hparts hstart hpattern hfound
    (fun path hpath => ⟨Option.isSome_iff_exists.2 (hfiles path hpath), hlocks path hpath⟩) hsorted
  rw [List.singleton_append, hlooks] at hlist
  exact hlist

/-! ## Updates apart from a search -/

/-- More entries in a workspace, at some places where there was no folder. -/
def Adds (workspace later : Workspace) (places : List Location) : Prop :=
  ∃ files folders, later.files.map Prod.fst = workspace.files.map Prod.fst ++ files ∧
    later.folders = workspace.folders ++ folders ∧
    ∀ location ∈ files ++ folders, location ∈ places ∧ workspace.isFolderAt location = false

theorem Adds.refl (workspace : Workspace) (places : List Location) :
    workspace.Adds workspace places :=
  ⟨[], [], by simp⟩

theorem Adds.trans {places more all : List Location} (h : workspace.Adds made places)
    (h' : made.Adds later more) (hplaces : places ⊆ all) (hmore : more ⊆ all) :
    workspace.Adds later all := by
  obtain ⟨files, folders, hfiles, hfolders, hnew⟩ := h
  obtain ⟨files', folders', hfiles', hfolders', hnew'⟩ := h'
  refine ⟨files ++ files', folders ++ folders', by rw [hfiles', hfiles, List.append_assoc],
    by rw [hfolders', hfolders, List.append_assoc], fun location hlocation => ?_⟩
  have hcases : location ∈ files ++ folders ∨ location ∈ files' ++ folders' := by
    simp only [List.mem_append] at hlocation ⊢
    tauto
  rcases hcases with hin | hin
  · exact ⟨hplaces (hnew location hin).1, (hnew location hin).2⟩
  · obtain ⟨hplace, hfree⟩ := hnew' location hin
    refine ⟨hmore hplace, ?_⟩
    simp only [isFolderAt, hfolders, List.contains_append, Bool.or_eq_false_iff] at hfree ⊢
    exact ⟨hfree.1, hfree.2.1⟩

theorem adds_withFolder (h : workspace.isFolderAt location = false) :
    workspace.Adds (workspace.withFolder location) [location] :=
  ⟨[], [location], by simp [withFolder], rfl, by simp [h]⟩

theorem adds_makeAlong (workspace : Workspace) (location : Location) (parts : List String) :
    workspace.Adds (workspace.makeAlong location parts).1 (trail location parts) := by
  induction parts generalizing workspace location with
  | nil => exact .refl _ _
  | cons part rest ih =>
    rw [makeAlong_cons]
    split_ifs with hroot hmissing
    · exact .refl _ _
    · exact .refl _ _
    · exact (adds_withFolder hmissing.2).trans (ih _ _)
        (List.cons_subset.2 ⟨List.mem_cons_of_mem _ start_mem_trail, List.nil_subset _⟩)
        (List.subset_cons_self _ _)
    · exact (Adds.refl _ []).trans (ih _ _) (List.nil_subset _) (List.subset_cons_self _ _)

theorem adds_makeParent (workspace : Workspace) (path : String) :
    workspace.Adds (workspace.makeParent path).1 (workspace.parentTrail path) := by
  rw [makeParent, parentTrail]
  cases parent? path with
  | none => exact .refl _ _
  | some parent =>
    simp only [makeFolders, trailOf, Option.map_some, Option.getD_some]
    cases workspace.partsOf? parent with
    | none => exact .refl _ _
    | some parts => exact adds_makeAlong workspace [] parts

theorem adds_putAt (h : workspace.isFolderAt location = false) (content : ByteArray) :
    workspace.Adds (workspace.putAt location content) [location] := by
  rw [putAt]
  split_ifs
  · refine ⟨[], [], ?_, by simp, by simp⟩
    rw [List.map_map, List.append_nil]
    refine List.map_congr_left fun file _ => ?_
    rw [Function.comp_apply]
    split_ifs with hfile
    · exact (eq_of_beq hfile).symm
    · rfl
  · exact ⟨[location], [], by simp, by simp, by simp [h]⟩

/-- An update adds entries where it may change something. -/
theorem adds_update (workspace : Workspace) (path text : String) :
    workspace.Adds (workspace.update path text).2
      (workspace.targetOf path :: workspace.parentTrail path) := by
  have hparent := adds_makeParent workspace path
  rcases update_cases workspace path text with ⟨-, heq⟩ | ⟨-, made, hmade, heq⟩ |
    ⟨-, made, hmade, -, heq⟩ | ⟨-, made, later, hmade, hwrite, heq⟩ <;> rw [heq]
  · exact .refl _ _
  · rw [hmade] at hparent
    exact (Adds.refl _ []).trans hparent (List.nil_subset _) (List.subset_cons_self _ _)
  · rw [hmade] at hparent
    exact (Adds.refl _ []).trans hparent (List.nil_subset _) (List.subset_cons_self _ _)
  · have htarget := targetOf_makeParent workspace path
    rw [hmade] at hparent htarget
    obtain ⟨hfree, -, rfl, -⟩ := spec_of_write? hwrite
    rw [htarget] at hfree ⊢
    exact hparent.trans (adds_putAt hfree _) (List.subset_cons_self _ _)
      (List.cons_subset.2 ⟨List.mem_cons_self, List.nil_subset _⟩)

/-- Nothing else is found in a folder if no entry was added below it. -/
theorem Adds.filterMap_eq {α : Type} {places : List Location} (h : workspace.Adds later places)
    {found? : Location → Option α} (hfound : ∀ other, found? other ≠ none → location <+: other)
    (hclear : ∀ other ∈ places, location <+: other → workspace.isFolderAt other = true) :
    (later.files.map Prod.fst ++ later.folders).filterMap found? =
      (workspace.files.map Prod.fst ++ workspace.folders).filterMap found? := by
  obtain ⟨files, folders, hfiles, hfolders, hnew⟩ := h
  have hnone : ∀ other ∈ files ++ folders, found? other = none := by
    intro other hother
    by_contra hsome
    obtain ⟨hplace, hfree⟩ := hnew other hother
    rw [hclear other hplace (hfound other hsome)] at hfree
    cases hfree
  rw [List.forall_mem_append] at hnone
  simp only [hfiles, hfolders, List.filterMap_append, List.filterMap_eq_nil_iff.2 hnone.1,
    List.filterMap_eq_nil_iff.2 hnone.2, List.append_nil]

theorem Adds.names_eq {places : List Location} (h : workspace.Adds later places)
    (hclear : ∀ other ∈ places, location <+: other → workspace.isFolderAt other = true) :
    later.namesIn location = workspace.namesIn location ∧
      later.below location = workspace.below location := by
  refine ⟨h.filterMap_eq (fun other hother => ?_) hclear,
    h.filterMap_eq (fun other hother => ?_) hclear⟩ <;>
  · by_contra hnot
    simp [hnot] at hother

/-- An update does not matter to a look: it is apart from the path, and makes nothing below it where
the look is inside. -/
def Look.Clear (workspace : Workspace) (output : String) (look : Look) : Prop :=
  workspace.Apart output look.path ∧ (look.inside = true →
    ∀ location ∈ workspace.targetOf output :: workspace.parentTrail output,
      workspace.targetOf look.path <+: location → workspace.isFolderAt location = true)

instance (workspace : Workspace) (output : String) (look : Look) :
    Decidable (look.Clear workspace output) := inferInstanceAs (Decidable (_ ∧ _))

theorem Look.Clear.mono {output : String} {look : Look} (h : look.Clear workspace output)
    (hgrows : workspace.Grows later) : look.Clear later output := by
  refine ⟨h.1.mono hgrows, fun hinside location hlocation hprefix => ?_⟩
  rw [targetOf_congr hgrows.root, parentTrail_congr hgrows.root] at hlocation
  rw [targetOf_congr hgrows.root] at hprefix
  exact hgrows.folder _ (h.2 hinside location hlocation hprefix)

/-- Where a path leads depends on what is along its trail. -/
theorem locate?_congr (hroot : later.root = workspace.root)
    (h : ∀ location ∈ workspace.trailOf path, workspace.SameAt later location) :
    later.locate? path = workspace.locate? path := by
  ext location
  rw [locate?_eq_some, locate?_eq_some, LeadsTo.congr hroot h, targetOf_congr hroot]

/-- **A look finds the same after an update that does not matter to it.** -/
theorem Look.Clear.same {output : String} {look : Look} (h : look.Clear workspace output)
    (text : String) : look.Same workspace (workspace.update output text).2 := by
  have hupdates := updates_update workspace output text
  have hsame : ∀ location ∈ workspace.trailOf look.path,
      workspace.SameAt (workspace.update output text).2 location :=
    fun location hlocation => hupdates.sameAt (h.1 location hlocation)
  have hlocate := locate?_congr hupdates.grows.root hsame
  refine ⟨by rw [hasPath, hasPath, hlocate], ?_, by rw [isFile, isFile, h.1.read?_update],
    fun hinside => ?_⟩
  · rw [isFolder, isFolder, hlocate]
    cases hfound : workspace.locate? look.path with
    | none => rfl
    | some location =>
      obtain ⟨hleads, rfl⟩ := locate?_eq_some.1 hfound
      rw [Option.map_some, Option.map_some, (hsame _ hleads.targetOf_mem_trailOf).1]
  · rw [pathsIn, pathsIn, pathsBelow, pathsBelow, hlocate]
    cases hfound : workspace.locate? look.path with
    | none => exact ⟨rfl, rfl⟩
    | some location =>
      obtain ⟨-, rfl⟩ := locate?_eq_some.1 hfound
      obtain ⟨hnames, hbelow⟩ := (adds_update workspace output text).names_eq (h.2 hinside)
      simp only [hnames, hbelow, and_self]

end Workspace

end TableExport
