import TableExport.Proofs.Files.Trails

/-!
# The folder of a path

A path leads through its parent: up to parts that stay where they are, the parts of a path before
its last one are those of its parent (`Workspace.partsOf?_parent`), so the trail of the parent holds
the trail of the path but for its target (`Workspace.trail_front_subset`).
-/

namespace TableExport

namespace Pointer

variable {separator : Char} {text first second part : List Char}

theorem splitAt_eq (separator : Char) (text : List Char) :
    splitAt separator text = text.splitOn separator := by
  induction text with
  | nil => rfl
  | cons c rest ih =>
    rw [splitAt, ih, List.splitOn, List.splitOn, List.splitOnP_cons_eq_if_modifyHead]
    by_cases hc : c = separator
    · simp [hc]
    · cases hrest : List.splitOnP (· == separator) rest with
      | nil => exact absurd hrest (List.splitOnP_ne_nil _ _)
      | cons part parts => simp [hc]

theorem splitAt_append (separator : Char) (first second : List Char) :
    splitAt separator (first ++ separator :: second) =
      splitAt separator first ++ splitAt separator second := by
  simp only [splitAt_eq, List.splitOn]
  exact List.splitOnP_append_cons first second (beq_self_eq_true separator)

/-- A separator ends a part. -/
theorem not_mem_of_mem_splitAt (h : part ∈ splitAt separator text) : separator ∉ part := by
  induction text generalizing part with
  | nil =>
    rw [splitAt, List.mem_singleton] at h
    rw [h]
    exact List.not_mem_nil
  | cons c rest ih =>
    rw [splitAt] at h
    by_cases hc : c = separator
    · rw [if_pos hc] at h
      rcases List.mem_cons.1 h with rfl | h
      · exact List.not_mem_nil
      · exact ih h
    · rw [if_neg hc] at h
      cases hrest : splitAt separator rest with
      | nil =>
        rw [splitAt_eq] at hrest
        exact absurd hrest (List.splitOn_ne_nil _ _)
      | cons head tail =>
        rw [hrest] at h ih
        rcases List.mem_cons.1 h with rfl | h
        · exact List.not_mem_cons_of_ne_of_not_mem (Ne.symm hc) (ih List.mem_cons_self)
        · exact ih (List.mem_cons_of_mem _ h)

theorem splitAt_intercalate {parts : List (List Char)} (hne : parts ≠ [])
    (h : ∀ part ∈ parts, separator ∉ part) :
    splitAt separator ([separator].intercalate parts) = parts := by
  rw [splitAt_eq, List.splitOn_intercalate separator h hne]

theorem intercalate_splitAt (separator : Char) (text : List Char) :
    [separator].intercalate (splitAt separator text) = text := by
  rw [splitAt_eq, List.intercalate_splitOn]

theorem intercalate_append {parts more : List (List Char)} (hparts : parts ≠ []) (hmore : more ≠ []) :
    [separator].intercalate (parts ++ more) =
      [separator].intercalate parts ++ separator :: [separator].intercalate more := by
  induction parts with
  | nil => exact absurd rfl hparts
  | cons part rest ih =>
    cases rest with
    | nil =>
      obtain ⟨head, tail, rfl⟩ := List.exists_cons_of_ne_nil hmore
      simp [List.intercalate_cons_cons]
    | cons next rest =>
      have := ih (List.cons_ne_nil _ _)
      simp only [List.cons_append] at this ⊢
      simp [List.intercalate_cons_cons, this]

end Pointer

namespace Path

/-- Whether a part of a path stays where it is. -/
def Stays (part : String) : Prop := part = "" ∨ part = "."

theorem descend_of_stays {location : Location} {part : String} (h : Stays part) :
    descend location part = location :=
  if_pos h

/-- Parts that stay where they are make no trail. -/
theorem eq_of_mem_trail_of_stays {location other : Location} {parts : List String}
    (h : ∀ part ∈ parts, Stays part) (hother : other ∈ trail location parts) :
    other = location := by
  induction parts with
  | nil => exact List.mem_singleton.1 hother
  | cons part rest ih =>
    obtain ⟨hpart, hrest⟩ := List.forall_mem_cons.1 h
    rw [trail, descend_of_stays hpart] at hother
    exact (List.mem_cons.1 hother).elim id (ih hrest)

/-- Marks from the last to the first: those before the last that is set, cut at the one before. -/
theorem exists_cut {marks before : List (String × Bool)} {last : String × Bool}
    (h : marks.dropWhile (!·.2) = last :: before) :
    ∃ staying rest, marks.reverse = (before.dropWhile (!·.2)).reverse ++ staying ++ last :: rest ∧
      (∀ mark ∈ staying, mark.2 = false) ∧ (∀ mark ∈ rest, mark.2 = false) ∧ last.2 = true := by
  have hunset : ∀ mark ∈ before.takeWhile (!·.2), mark.2 = false := fun mark hmark => by
    simpa using List.mem_takeWhile_imp hmark
  have hunset' : ∀ mark ∈ marks.takeWhile (!·.2), mark.2 = false := fun mark hmark => by
    simpa using List.mem_takeWhile_imp hmark
  refine ⟨(before.takeWhile (!·.2)).reverse, (marks.takeWhile (!·.2)).reverse, ?_,
    fun mark hmark => hunset mark (List.mem_reverse.1 hmark),
    fun mark hmark => hunset' mark (List.mem_reverse.1 hmark), ?_⟩
  · calc marks.reverse
        = (marks.takeWhile (!·.2) ++ last :: before).reverse := by
          rw [← h, List.takeWhile_append_dropWhile]
      _ = before.reverse ++ last :: (marks.takeWhile (!·.2)).reverse := by
          simp
      _ = _ := by
          rw [← List.reverse_append, List.takeWhile_append_dropWhile]
  · have hlast := List.head_dropWhile_not (fun mark : String × Bool => !mark.2)
      (l := marks) (by simp [h])
    simpa [h] using hlast

/-- A part with its index, and whether it counts. -/
def mark (absolute : Bool) (part : String × Nat) : String × Bool :=
  (part.1, !part.1.isEmpty && (part.1 != "." || (part.2 == 0 && !absolute)))

theorem marked_eq (path : String) :
    marked path = (if isAbsolute path then "/" else "",
      (((Pointer.splitAt '/' (if isAbsolute path then path.toList.drop 1 else path.toList)).map
        String.ofList).zipIdx.map (mark (isAbsolute path))).reverse) := rfl

/-- A part that does not count stays where it is, and one that counts is not empty. -/
theorem mark_cases (absolute : Bool) (part : String × Nat) :
    ((mark absolute part).2 = false → Stays (mark absolute part).1) ∧
      ((mark absolute part).2 = true → (mark absolute part).1 ≠ "") := by
  obtain ⟨part, i⟩ := part
  by_cases hempty : part = ""
  · simp [mark, hempty, Stays]
  · by_cases hpoint : part = "."
    · simp [mark, hpoint, Stays]
    · simp [mark, hempty, hpoint]

/-- A path is its lead, a slash if it is absolute, and what follows. -/
structure Led (path : String) (lead body : List Char) : Prop where
  toList_eq : path.toList = lead ++ body
  lead_eq : lead = if isAbsolute path then ['/'] else []

theorem led_drop (path : String) : Led path (if isAbsolute path then ['/'] else [])
    (if isAbsolute path then path.toList.drop 1 else path.toList) where
  toList_eq := by
    split_ifs with habsolute
    · rw [isAbsolute, beq_iff_eq] at habsolute
      obtain ⟨body, hbody⟩ := List.head?_eq_some_iff.1 habsolute
      rw [hbody]
      rfl
    · rfl
  lead_eq := rfl

theorem Led.body_eq {path : String} {lead body : List Char} (h : Led path lead body) :
    (if isAbsolute path then path.toList.drop 1 else path.toList) = body := by
  rw [h.toList_eq, h.lead_eq]
  cases isAbsolute path <;> rfl

/-- A path without its lead is its parent without the lead, parts that stay where they are, and a
last part. -/
theorem parent?_eq_some {path parent : String} (h : parent? path = some parent) :
    ∃ (lead body : List Char) (kept staying rest : List String) (last : String),
      Led path lead body ∧
      (kept ++ staying ++ last :: rest).map String.toList = Pointer.splitAt '/' body ∧
      parent.toList = lead ++ ['/'].intercalate (kept.map String.toList) ∧
      (∀ part ∈ staying, Stays part) ∧ (∀ part ∈ rest, Stays part) ∧ last ≠ "" := by
  simp only [parent?] at h
  split at h
  · cases h
  rename_i last before hcut
  cases h
  simp only [marked_eq] at hcut ⊢
  obtain ⟨staying, rest, hmarks, hstaying, hrest, hlast⟩ := exists_cut hcut
  rw [List.reverse_reverse] at hmarks
  have hled := led_drop path
  generalize (if isAbsolute path then path.toList.drop 1 else path.toList) = body at hmarks hled
  have hflag : ∀ marked ∈ ((Pointer.splitAt '/' body).map String.ofList).zipIdx.map
        (mark (isAbsolute path)),
      (marked.2 = false → Stays marked.1) ∧ (marked.2 = true → marked.1 ≠ "") :=
    List.forall_mem_map.2 fun part _ => mark_cases _ part
  have hparts : (Pointer.splitAt '/' body).map String.ofList =
      (((Pointer.splitAt '/' body).map String.ofList).zipIdx.map
        (mark (isAbsolute path))).map Prod.fst := by
    rw [List.map_map]
    exact (List.zipIdx_map_fst 0 _).symm
  rw [hmarks] at hflag hparts
  generalize (before.dropWhile (!·.2)).reverse = kept at hflag hparts ⊢
  refine ⟨_, body, kept.map Prod.fst, staying.map Prod.fst, rest.map Prod.fst, last.1, hled,
    ?_, ?_, ?_, ?_, ?_⟩
  · rw [← List.map_append, ← List.map_cons, ← List.map_append, ← hparts, List.map_map]
    simp
  · rw [String.toList_append, String.toList_intercalate]
    cases isAbsolute path <;> rfl
  · exact List.forall_mem_map.2 fun mark hmark =>
      (hflag mark (by simp [hmark])).1 (hstaying mark hmark)
  · exact List.forall_mem_map.2 fun mark hmark =>
      (hflag mark (by simp [hmark])).1 (hrest mark hmark)
  · exact (hflag last (by simp)).2 hlast

/-- A path with a name in it has a parent. -/
theorem exists_parent {path : String} {lead body : List Char} {part : String}
    (hled : Led path lead body) (hpart : part ∈ (Pointer.splitAt '/' body).map String.ofList)
    (hname : IsName part) : ∃ parent, parent? path = some parent := by
  simp only [parent?]
  split
  · rename_i hnone
    exfalso
    simp only [marked_eq, hled.body_eq] at hnone
    obtain ⟨i, hi⟩ : ∃ i, (part, i) ∈
        ((Pointer.splitAt '/' body).map String.ofList).zipIdx := by
      rw [← List.zipIdx_map_fst 0 ((Pointer.splitAt '/' body).map String.ofList)] at hpart
      obtain ⟨⟨found, i⟩, hfound, rfl⟩ := List.mem_map.1 hpart
      exact ⟨i, hfound⟩
    have hcounts := List.dropWhile_eq_nil_iff.1 hnone _
      (List.mem_reverse.2 (List.mem_map_of_mem hi))
    simp [mark, hname.1, hname.2.1] at hcounts
  · exact ⟨_, rfl⟩

end Path

namespace Workspace

open TableExport.Path

variable {workspace : Workspace} {path parent name : String} {parts front : List String}

/-- The parts of a path below the root of the workspace. -/
theorem partsOf?_of_root {rest : List Char} (hroot : workspace.root ≠ "")
    (h : path.toList = workspace.root.toList ++ '/' :: rest) :
    workspace.partsOf? path = some ((Pointer.splitAt '/' rest).map String.ofList) := by
  have hprefix : (workspace.root.toList.isPrefixOf path.toList &&
      !workspace.root.toList.isEmpty) = true := by
    rw [h, Bool.and_eq_true, List.isPrefixOf_iff_prefix]
    exact ⟨List.prefix_append _ _, by simp [hroot]⟩
  simp only [partsOf?, if_pos hprefix]
  rw [h, List.drop_left]
  rfl

/-- The parts of a path are those below the root of the workspace, or all parts of a relative
path. -/
theorem partsOf?_cases (h : workspace.partsOf? path = some parts) :
    (workspace.root ≠ "" ∧ path = workspace.root ∧ parts = []) ∨
    (workspace.root ≠ "" ∧ ∃ rest, path.toList = workspace.root.toList ++ '/' :: rest ∧
      parts = (Pointer.splitAt '/' rest).map String.ofList) ∨
    (isAbsolute path = false ∧ parts = pieces path ∧
      (workspace.root ≠ "" → path ≠ workspace.root ∧
        ∀ rest, path.toList ≠ workspace.root.toList ++ '/' :: rest)) := by
  simp only [partsOf?] at h
  by_cases hroot : (workspace.root.toList.isPrefixOf path.toList &&
      !workspace.root.toList.isEmpty) = true
  · rw [if_pos hroot] at h
    rw [Bool.and_eq_true, List.isPrefixOf_iff_prefix] at hroot
    obtain ⟨⟨tail, htail⟩, hne⟩ := hroot
    have hne : workspace.root ≠ "" := by
      rintro heq
      simp [heq] at hne
    rw [← htail, List.drop_left] at h
    split at h
    · cases h
      rw [List.append_nil] at htail
      exact Or.inl ⟨hne, String.toList_injective htail.symm, rfl⟩
    · cases h
      exact Or.inr (Or.inl ⟨hne, _, htail.symm, rfl⟩)
    · rename_i hnil hslash
      split_ifs at h with habsolute
      cases h
      refine Or.inr (Or.inr ⟨by simpa using habsolute, rfl, fun _ => ⟨?_, fun rest hrest => ?_⟩⟩)
      · rintro rfl
        exact hnil (List.append_right_eq_self.1 htail)
      · exact hslash rest (List.append_cancel_left (htail.trans hrest))
  · rw [if_neg hroot] at h
    split_ifs at h with habsolute
    cases h
    refine Or.inr (Or.inr ⟨by simpa using habsolute, rfl, fun hne => ?_⟩)
    have hprefix : ¬ workspace.root.toList <+: path.toList := by
      simpa [List.isPrefixOf_iff_prefix, hne] using hroot
    refine ⟨?_, fun rest hrest => hprefix ⟨_, hrest.symm⟩⟩
    rintro rfl
    exact hprefix List.prefix_rfl

/-- Parts as characters, and back. -/
theorem map_ofList_toList (parts : List String) :
    (parts.map String.toList).map String.ofList = parts := by
  rw [List.map_map]
  exact List.map_id'' (fun part => String.ofList_toList) parts

/-- The text of some parts is split into them. -/
theorem splitAt_text {parts : List String} (hne : parts ≠ [])
    (hslash : ∀ part ∈ parts, '/' ∉ part.toList) :
    (Pointer.splitAt '/' (['/'].intercalate (parts.map String.toList))).map String.ofList =
      parts := by
  rw [Pointer.splitAt_intercalate (by simpa using hne) (by simpa using hslash), map_ofList_toList]

/-- The text of what a text is split into. -/
theorem text_splitAt {parts : List String} {text : List Char}
    (h : parts = (Pointer.splitAt '/' text).map String.ofList) :
    text = ['/'].intercalate (parts.map String.toList) := by
  have htoList : parts.map String.toList = Pointer.splitAt '/' text := by
    rw [h, List.map_map]
    exact List.map_id'' (fun part => String.toList_ofList) _
  rw [htoList, Pointer.intercalate_splitAt]

/-- The parts of a path are at the end of what its text is split into. -/
theorem exists_append_of_partsOf? {lead body : List Char} (hled : Led path lead body)
    (hne : parts ≠ []) (h : workspace.partsOf? path = some parts) :
    ∃ before, (Pointer.splitAt '/' body).map String.ofList = before ++ parts := by
  have hlead := hled.lead_eq
  rcases partsOf?_cases h with ⟨-, -, hnil⟩ | ⟨hroot, rest, hrest, hsplit⟩ | ⟨hrelative, hsplit, -⟩
  · exact absurd hnil hne
  · -- the lead is in the root of the workspace
    obtain ⟨root, hbody⟩ : ∃ root, body = root ++ '/' :: rest := by
      rw [hled.toList_eq] at hrest
      split_ifs at hlead with habsolute
      · obtain ⟨c, root, htext⟩ :=
          List.exists_cons_of_ne_nil fun hnil => hroot (String.toList_eq_nil_iff.1 hnil)
        rw [htext, hlead, List.singleton_append, List.cons_append] at hrest
        exact ⟨root, (List.cons.inj hrest).2⟩
      · rw [hlead] at hrest
        exact ⟨workspace.root.toList, hrest⟩
    rw [hbody, Pointer.splitAt_append, List.map_append, ← hsplit]
    exact ⟨_, rfl⟩
  · rw [hrelative, if_neg Bool.false_ne_true] at hlead
    exact ⟨[], by rw [List.nil_append, hsplit, pieces, hled.toList_eq, hlead, List.nil_append]⟩

/-- A path with a name at its end has a parent. -/
theorem exists_parent_of_partsOf? (hparts : workspace.partsOf? path = some (front ++ [name]))
    (hname : IsName name) : ∃ parent, parent? path = some parent := by
  obtain ⟨before, hbefore⟩ := exists_append_of_partsOf? (led_drop path) (by simp) hparts
  refine exists_parent (led_drop path) ?_ hname
  rw [hbefore]
  simp

/-- Only an absolute path leads out of a workspace. -/
theorem isAbsolute_of_partsOf? (h : workspace.partsOf? path = none) : isAbsolute path = true := by
  simp only [partsOf?] at h
  split at h
  · split at h
    · cases h
    · cases h
    · by_contra hrelative
      cases (if_neg hrelative).symm.trans h
  · by_contra hrelative
    cases (if_neg hrelative).symm.trans h

/-- Where only parts that stay follow a last part, and the last of all is a name, nothing
follows. -/
theorem eq_name_of_append {kept before rest : List String} {last : String}
    (h : kept ++ last :: rest = before ++ (front ++ [name])) (hrest : ∀ part ∈ rest, Stays part)
    (hname : IsName name) : kept = before ++ front ∧ last = name ∧ rest = [] := by
  rw [← List.append_assoc] at h
  rcases List.eq_nil_or_concat rest with rfl | ⟨others, other, rfl⟩
  · obtain ⟨hfront, hlast⟩ := List.append_inj' h rfl
    exact ⟨hfront, (List.cons.inj hlast).1, rfl⟩
  · have hlast := congrArg List.getLast? h
    rw [List.concat_eq_append, ← List.cons_append, ← List.append_assoc, List.getLast?_concat,
      List.getLast?_concat, Option.some.injEq] at hlast
    exact ((hrest name (by simp [hlast])).elim hname.1 hname.2.1).elim

/-- The text of some parts and more is the text of the parts, a slash and the text of the others. -/
theorem text_append {first more : List String} (hfirst : first ≠ []) (hmore : more ≠ []) :
    ['/'].intercalate ((first ++ more).map String.toList) =
      ['/'].intercalate (first.map String.toList) ++
        '/' :: ['/'].intercalate (more.map String.toList) := by
  rw [List.map_append]
  exact Pointer.intercalate_append (by simpa using hfirst) (by simpa using hmore)

/-- What a path has in front of a slash lies below the root with the path, and has its parts before
that slash. -/
theorem partsOf?_front_of_root {tail rest : List Char} (hroot : workspace.root ≠ "")
    (hpath : path.toList = workspace.root.toList ++ '/' :: rest)
    (hparent : path.toList = parent.toList ++ '/' :: tail)
    (hrest : rest = ['/'].intercalate (parts.map String.toList) ++ '/' :: tail) (hne : parts ≠ [])
    (hslash : ∀ part ∈ parts, '/' ∉ part.toList) : workspace.partsOf? parent = some parts := by
  have hbelow : parent.toList =
      workspace.root.toList ++ '/' :: ['/'].intercalate (parts.map String.toList) := by
    rw [hparent, hrest, ← List.cons_append, ← List.append_assoc] at hpath
    exact List.append_cancel_right hpath
  rw [partsOf?_of_root hroot hbelow, splitAt_text hne hslash]

/-- What a relative path has in front of a slash is relative, and does not lead to the root if the
path does not lead below it. -/
theorem partsOf?_front_of_relative {tail : List Char} (hrelative : isAbsolute path = false)
    (hroot : workspace.root ≠ "" → ∀ rest, path.toList ≠ workspace.root.toList ++ '/' :: rest)
    (hparent : path.toList = parent.toList ++ '/' :: tail) :
    workspace.partsOf? parent = some (pieces parent) := by
  have hrelative' : isAbsolute parent = false := by
    rw [isAbsolute, hparent, List.head?_append] at hrelative
    rw [isAbsolute]
    cases htext : parent.toList with
    | nil => rfl
    | cons c rest => simpa [htext] using hrelative
  cases hat : workspace.partsOf? parent with
  | none =>
    rw [isAbsolute_of_partsOf? hat] at hrelative'
    cases hrelative'
  | some parts =>
    rcases partsOf?_cases hat with ⟨hne, rfl, -⟩ | ⟨hne, text, htext, -⟩ | ⟨-, hpieces, -⟩
    · exact absurd hparent (hroot hne tail)
    · rw [htext, List.append_assoc] at hparent
      exact absurd hparent (hroot hne _)
    · rw [hpieces]

/-- **A path leads through its parent.** The parts before the last one all stay where they are, or
they are those of the parent and parts that stay where they are. -/
theorem partsOf?_parent (hparts : workspace.partsOf? path = some (front ++ [name]))
    (hname : IsName name) (hparent : parent? path = some parent) :
    (∀ part ∈ front, Stays part) ∨
      ∃ parts staying, workspace.partsOf? parent = some parts ∧ (∀ part ∈ staying, Stays part) ∧
        front = parts ++ staying := by
  obtain ⟨lead, body, kept, staying, rest, last, hled, hbody, hto, hstaying, hrest, -⟩ :=
    parent?_eq_some hparent
  obtain ⟨before, hbefore⟩ := exists_append_of_partsOf? hled (by simp) hparts
  rw [← hbody, map_ofList_toList] at hbefore
  obtain ⟨hfront, rfl, rfl⟩ := eq_name_of_append hbefore hrest hname
  rcases List.append_eq_append_iff.1 hfront with ⟨more, rfl, hstay⟩ | ⟨front', rfl, rfl⟩
  · exact Or.inl fun part hpart => hstaying part (hstay ▸ List.mem_append_right _ hpart)
  by_cases hempty : front' = []
  · exact Or.inl fun part hpart => hstaying part (by simpa [hempty] using hpart)
  refine Or.inr ⟨front', staying, ?_, hstaying, rfl⟩
  have hslash : ∀ part ∈ front', '/' ∉ part.toList := fun part hpart =>
    Pointer.not_mem_of_mem_splitAt (hbody ▸ List.mem_map_of_mem (by simp [hpart]))
  -- the text of the path is that of its parent, a slash and the rest
  have hcut : path.toList =
      parent.toList ++ '/' :: ['/'].intercalate ((staying ++ [last]).map String.toList) := by
    rw [hled.toList_eq, hto, List.append_assoc, ← text_append (by simp [hempty]) (by simp),
      ← List.append_assoc, hbody, Pointer.intercalate_splitAt]
  rcases partsOf?_cases hparts with ⟨-, -, hnil⟩ | ⟨hroot, text, hbelow, hsplit⟩ |
    ⟨hrelative, hsplit, hroot⟩
  · simp at hnil
  · refine partsOf?_front_of_root hroot hbelow hcut ?_ hempty hslash
    rw [text_splitAt hsplit, List.append_assoc, text_append hempty (by simp)]
  · have hlead := hled.lead_eq
    rw [hrelative, if_neg Bool.false_ne_true] at hlead
    obtain rfl : before = [] := by
      rw [pieces, hled.toList_eq, hlead, List.nil_append, ← hbody, map_ofList_toList, hbefore]
        at hsplit
      simpa using hsplit
    rw [partsOf?_front_of_relative hrelative (fun hne => (hroot hne).2) hcut, pieces, hto, hlead]
    exact congrArg some (splitAt_text hempty hslash)

/-- **The trail of a path but for its target is in the trail of its parent.** -/
theorem trail_front_subset (hparts : workspace.partsOf? path = some (front ++ [name]))
    (hname : IsName name) (hparent : parent? path = some parent)
    (hat : workspace.partsOf? parent = some parts) : trail [] front ⊆ trail [] parts := by
  intro location hlocation
  rcases partsOf?_parent hparts hname hparent with hstay | ⟨parts', staying, hat', hstay, rfl⟩
  · rw [eq_of_mem_trail_of_stays hstay hlocation]
    exact start_mem_trail
  · cases hat.symm.trans hat'
    rcases mem_trail_append.1 hlocation with hin | hin
    · exact hin
    · rw [eq_of_mem_trail_of_stays hstay hin]
      exact target_mem_trail

end Workspace

end TableExport
