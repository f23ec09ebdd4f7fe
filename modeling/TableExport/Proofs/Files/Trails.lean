import Mathlib
import TableExport.Files.Workspace

/-!
# The trail of a path

Where the parts of a path lead to does not depend on the files: each part stays, goes up or goes
down (`Path.descend`). The locations along a path are its trail (`Path.trail`), and the last of them
is its target. The files only decide whether the path leads there at all (`Workspace.Leads`), and
they decide it by what is at the locations of the trail (`Workspace.Leads.congr`). So what a path
leads to stays the same as long as nothing changes along its trail (`Workspace.read?_congr`).
-/

namespace TableExport

/-! ## Locations along a path -/

namespace Path

/-- Whether a part of a path is the name of a file or folder. -/
def IsName (part : String) : Prop := part ≠ "" ∧ part ≠ "." ∧ part ≠ ".."

instance (part : String) : Decidable (IsName part) := inferInstanceAs (Decidable (_ ∧ _))

/-- Where a part of a path leads to from a location. -/
def descend (location : Location) (part : String) : Location :=
  if part = "" ∨ part = "." then location
  else if part = ".." then location.dropLast
  else location ++ [part]

/-- Where the parts of a path lead to. -/
def target (location : Location) (parts : List String) : Location := parts.foldl descend location

/-- The locations along the parts of a path, from the start to the target. -/
def trail (location : Location) : List String → List Location
  | [] => [location]
  | part :: rest => location :: trail (descend location part) rest

variable {location : Location} {part : String} {parts more : List String}

theorem descend_of_isName (h : IsName part) : descend location part = location ++ [part] := by
  rw [descend, if_neg (not_or.2 ⟨h.1, h.2.1⟩), if_neg h.2.2]

@[simp] theorem target_nil : target location [] = location := rfl

@[simp] theorem target_cons :
    target location (part :: parts) = target (descend location part) parts := rfl

theorem target_append :
    target location (parts ++ more) = target (target location parts) more :=
  List.foldl_append

theorem start_mem_trail : location ∈ trail location parts := by
  cases parts with
  | nil => exact List.mem_singleton_self location
  | cons part rest => exact List.mem_cons_self

theorem target_mem_trail : target location parts ∈ trail location parts := by
  induction parts generalizing location with
  | nil => exact List.mem_singleton_self location
  | cons part rest ih => exact List.mem_cons_of_mem _ ih

/-- The trail of a path goes on with that of what follows. -/
theorem mem_trail_append {other : Location} :
    other ∈ trail location (parts ++ more) ↔
      other ∈ trail location parts ∨ other ∈ trail (target location parts) more := by
  induction parts generalizing location with
  | nil =>
    simp only [List.nil_append, trail, target_nil, List.mem_singleton]
    exact ⟨Or.inr, fun h => h.elim (fun h => h ▸ start_mem_trail) id⟩
  | cons part rest ih =>
    simp only [List.cons_append, trail, List.mem_cons, target_cons, ih, or_assoc]

end Path

namespace Workspace

open TableExport.Path

variable {workspace later : Workspace} {location : Location} {part path : String}
  {parts more : List String}

/-! ## Whether a path leads somewhere -/

/-- Whether a part of a path leads on from a location. -/
def Passes (workspace : Workspace) (location : Location) (part : String) : Prop :=
  workspace.isFolderAt location = true ∧ (part = ".." → location ≠ []) ∧
    (IsName part → workspace.existsAt (descend location part) = true)

instance (workspace : Workspace) (location : Location) (part : String) :
    Decidable (workspace.Passes location part) := inferInstanceAs (Decidable (_ ∧ _))

/-- Whether the parts of a path lead to their target. -/
def Leads (workspace : Workspace) (location : Location) : List String → Prop
  | [] => True
  | part :: rest => workspace.Passes location part ∧ Leads workspace (descend location part) rest

instance decidableLeads (workspace : Workspace) :
    (location : Location) → (parts : List String) → Decidable (workspace.Leads location parts)
  | _, [] => inferInstanceAs (Decidable True)
  | location, part :: rest =>
    let _ := decidableLeads workspace (descend location part) rest
    inferInstanceAs (Decidable (_ ∧ _))

theorem walk_cons :
    workspace.walk location (part :: parts) =
      if workspace.Passes location part then workspace.walk (descend location part) parts
      else none := by
  rw [walk]
  cases hfolder : workspace.isFolderAt location with
  | false => simp [Passes, hfolder]
  | true =>
    by_cases hstay : part = "" ∨ part = "."
    · have hname : ¬ IsName part := fun h => hstay.elim h.1 h.2.1
      have hup : part ≠ ".." := by
        rintro rfl
        simp at hstay
      simp [Passes, descend, hfolder, hstay, hname, hup, String.isEmpty_iff]
    · by_cases hup : part = ".."
      · subst hup
        simp [Passes, descend, IsName, hfolder]
      · have hname : IsName part := ⟨(not_or.1 hstay).1, (not_or.1 hstay).2, hup⟩
        simp [Passes, descend_of_isName hname, hfolder, hname.1, hname.2.1, hup, hname]

/-- **A path leads to its target or nowhere.** -/
theorem walk_eq (workspace : Workspace) (location : Location) (parts : List String) :
    workspace.walk location parts =
      if workspace.Leads location parts then some (target location parts) else none := by
  induction parts generalizing location with
  | nil => simp [walk, Leads]
  | cons part rest ih =>
    rw [walk_cons, ih, target_cons]
    simp only [Leads]
    split_ifs <;> simp_all

theorem leads_append :
    workspace.Leads location (parts ++ more) ↔
      workspace.Leads location parts ∧ workspace.Leads (target location parts) more := by
  induction parts generalizing location with
  | nil => simp [Leads]
  | cons part rest ih => simp only [List.cons_append, Leads, target_cons, ih, and_assoc]

/-- Where there is more, a path still leads to its target. -/
theorem Leads.mono (h : workspace.Leads location parts)
    (hfolder : ∀ other, workspace.isFolderAt other = true → later.isFolderAt other = true)
    (hexists : ∀ other ∈ trail location parts, workspace.existsAt other = true →
      later.existsAt other = true) : later.Leads location parts := by
  induction parts generalizing location with
  | nil => trivial
  | cons part rest ih =>
    obtain ⟨⟨hat, hup, hnext⟩, hrest⟩ := h
    have hin : descend location part ∈ trail location (part :: rest) :=
      List.mem_cons_of_mem _ start_mem_trail
    exact ⟨⟨hfolder _ hat, hup, fun hname => hexists _ hin (hnext hname)⟩,
      ih hrest fun other hother => hexists other (List.mem_cons_of_mem _ hother)⟩

/-- Two workspaces hold the same at a location. -/
def SameAt (workspace later : Workspace) (location : Location) : Prop :=
  later.isFolderAt location = workspace.isFolderAt location ∧
    later.contentAt? location = workspace.contentAt? location

theorem SameAt.existsAt (h : workspace.SameAt later location) :
    later.existsAt location = workspace.existsAt location := by
  rw [Workspace.existsAt, Workspace.existsAt, h.1, h.2]

/-- **Whether a path leads to its target depends on what is along its trail.** -/
theorem Leads.congr (h : ∀ other ∈ trail location parts, workspace.SameAt later other) :
    later.Leads location parts ↔ workspace.Leads location parts := by
  induction parts generalizing location with
  | nil => exact Iff.rfl
  | cons part rest ih =>
    have hat := h location List.mem_cons_self
    have hnext := h (descend location part) (List.mem_cons_of_mem _ start_mem_trail)
    simp only [Leads, Passes, hat.1, hnext.existsAt,
      ih fun other hother => h other (List.mem_cons_of_mem _ hother)]

/-! ## Files -/

/-- The locations along a path; none for a path that leads out of the workspace. -/
def trailOf (workspace : Workspace) (path : String) : List Location :=
  ((workspace.partsOf? path).map (trail [])).getD []

/-- The target of a path. -/
def targetOf (workspace : Workspace) (path : String) : Location :=
  ((workspace.partsOf? path).map (target [])).getD []

theorem partsOf?_congr (hroot : later.root = workspace.root) :
    later.partsOf? path = workspace.partsOf? path := by
  rw [partsOf?, partsOf?, hroot]

theorem trailOf_congr (hroot : later.root = workspace.root) :
    later.trailOf path = workspace.trailOf path := by
  rw [trailOf, trailOf, partsOf?_congr hroot]

theorem targetOf_congr (hroot : later.root = workspace.root) :
    later.targetOf path = workspace.targetOf path := by
  rw [targetOf, targetOf, partsOf?_congr hroot]

/-- Whether a path leads to its target. -/
def LeadsTo (workspace : Workspace) (path : String) : Prop :=
  path ≠ "" ∧ ∃ parts, workspace.partsOf? path = some parts ∧ workspace.Leads [] parts

theorem locate?_eq_some :
    workspace.locate? path = some location ↔
      workspace.LeadsTo path ∧ workspace.targetOf path = location := by
  rw [locate?, LeadsTo, targetOf]
  by_cases hempty : path = ""
  · simp [hempty]
  · cases hparts : workspace.partsOf? path with
    | none => simp [hempty]
    | some parts => simp [hempty, walk_eq]

/-- A file is read at the target of its path. -/
theorem read?_eq_some {content : ByteArray} :
    workspace.read? path = some content ↔
      workspace.LeadsTo path ∧ workspace.contentAt? (workspace.targetOf path) = some content := by
  simp only [read?, Option.bind_eq_some_iff, locate?_eq_some, and_assoc, exists_and_left,
    exists_eq_left']

theorem LeadsTo.congr (hroot : later.root = workspace.root)
    (h : ∀ location ∈ workspace.trailOf path, workspace.SameAt later location) :
    later.LeadsTo path ↔ workspace.LeadsTo path := by
  rw [LeadsTo, LeadsTo, partsOf?_congr hroot]
  cases hparts : workspace.partsOf? path with
  | none => simp
  | some parts =>
    rw [trailOf, hparts] at h
    simp [Leads.congr h]

theorem LeadsTo.targetOf_mem_trailOf (h : workspace.LeadsTo path) :
    workspace.targetOf path ∈ workspace.trailOf path := by
  obtain ⟨-, parts, hparts, -⟩ := h
  rw [targetOf, trailOf, hparts]
  exact target_mem_trail

/-- **What a path leads to stays the same if what is along its trail does.** -/
theorem read?_congr (hroot : later.root = workspace.root)
    (h : ∀ location ∈ workspace.trailOf path, workspace.SameAt later location) :
    later.read? path = workspace.read? path := by
  ext content
  rw [read?_eq_some, read?_eq_some, LeadsTo.congr hroot h, targetOf_congr hroot]
  refine and_congr_right fun hleads => ?_
  rw [(h _ hleads.targetOf_mem_trailOf).2]

end Workspace

end TableExport
