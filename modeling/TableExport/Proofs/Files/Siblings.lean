import TableExport.Proofs.Files.Repeats

/-!
# Files of one folder

Paths whose texts differ in a name at their end only lead through the same parts
(`Workspace.exists_partsOf?_of_text`), and have the same parent (`Path.exists_parent?_of_text`). So
two of them with different names are siblings (`Workspace.siblings_of_text`), as the files of a
folder are (`Workspace.siblings_join`).
-/

namespace TableExport

namespace Pointer

variable {separator : Char} {text name : List Char}

/-- A text that is empty or ends with a separator, so that a name after it is a part of its own. -/
def EndsPart (separator : Char) (text : List Char) : Prop :=
  text = [] ∨ ∃ init, text = init ++ [separator]

theorem splitAt_of_not_mem (h : separator ∉ name) : splitAt separator name = [name] := by
  have hsplit : splitAt separator ([separator].intercalate [name]) = [name] :=
    splitAt_intercalate (by simp) (by simpa using h)
  simpa using hsplit

/-- The parts before a name do not depend on it. -/
theorem splitAt_append_name (htext : EndsPart separator text) (hname : separator ∉ name) :
    splitAt separator (text ++ name) = (splitAt separator text).dropLast ++ [name] := by
  rcases htext with rfl | ⟨init, rfl⟩
  · simpa [splitAt] using splitAt_of_not_mem hname
  · have hempty := splitAt_append separator init []
    rw [splitAt] at hempty
    rw [List.append_assoc, List.singleton_append, splitAt_append, splitAt_of_not_mem hname, hempty,
      List.dropLast_concat]

theorem EndsPart.of_append {first second : List Char} (h : EndsPart separator (first ++ second)) :
    EndsPart separator second := by
  rcases List.eq_nil_or_concat second with rfl | ⟨init, last, rfl⟩
  · exact Or.inl rfl
  · rcases h with hnil | ⟨init', hinit⟩
    · simp at hnil
    · rw [List.concat_eq_append, ← List.append_assoc] at hinit
      have hlast := (List.append_inj' hinit rfl).2
      exact Or.inr ⟨init, by rw [List.concat_eq_append, hlast]⟩

end Pointer

namespace Path

open Pointer (EndsPart)

variable {base name : String}

/-- The text that joining puts in front of the name of a file. -/
def folderText (base : String) : List Char :=
  if base.isEmpty || base.toList.getLast? == some '/' then base.toList else base.toList ++ ['/']

theorem endsPart_folderText (base : String) : EndsPart '/' (folderText base) := by
  rw [folderText]
  split_ifs with h
  · rw [Bool.or_eq_true, String.isEmpty_iff, beq_iff_eq] at h
    rcases h with rfl | h
    · exact Or.inl rfl
    · obtain ⟨init, hinit⟩ := List.getLast?_eq_some_iff.1 h
      exact Or.inr ⟨init, hinit⟩
  · exact Or.inr ⟨_, rfl⟩

/-- The name of a file is no absolute path. -/
theorem isAbsolute_of_not_mem (hname : '/' ∉ name.toList) : isAbsolute name = false := by
  rw [isAbsolute, beq_eq_false_iff_ne]
  intro hhead
  exact hname (List.mem_of_head? hhead)

theorem toList_join (base : String) (hname : '/' ∉ name.toList) :
    (join base name).toList = folderText base ++ name.toList := by
  rw [join, isAbsolute_of_not_mem hname, if_neg Bool.false_ne_true, folderText]
  split_ifs <;> simp

variable {front : List Char} {path : String}

/-- What is in front of the name decides whether a path is absolute. -/
theorem isAbsolute_of_text (hpath : path.toList = front ++ name.toList)
    (hname : '/' ∉ name.toList) : isAbsolute path = (front.head? == some '/') := by
  have hrelative := isAbsolute_of_not_mem hname
  rw [isAbsolute] at hrelative ⊢
  rw [hpath]
  cases front with
  | nil => rw [List.nil_append, hrelative]; rfl
  | cons c rest => rfl

/-- **All files of a folder have the same parent.** -/
theorem exists_parent?_of_text (hfront : EndsPart '/' front) :
    ∃ parent, ∀ path name : String, path.toList = front ++ name.toList → IsName name →
      '/' ∉ name.toList → parent? path = some parent := by
  let absolute := front.head? == some '/'
  let body := if absolute then front.drop 1 else front
  have hbody : EndsPart '/' body := by
    simp only [body]
    split_ifs
    · rw [← List.take_append_drop 1 front] at hfront
      exact hfront.of_append
    · exact hfront
  -- the marks of the parts before the name
  let parts := (Pointer.splitAt '/' body).dropLast.map String.ofList
  let marks := parts.zipIdx.map (mark absolute)
  refine ⟨(if absolute then "/" else "") ++
    "/".intercalate ((marks.reverse.dropWhile (!·.2)).reverse.map Prod.fst),
    fun path name hpath hname hslash => ?_⟩
  have hsame : (if absolute = true then path.toList.drop 1 else path.toList) =
      body ++ name.toList := by
    simp only [body, hpath]
    split_ifs with habsolute
    · cases front with
      | nil => simp [absolute] at habsolute
      | cons c rest => rfl
    · rfl
  have hmarked : marked path =
      (if absolute then "/" else "", (name, true) :: marks.reverse) := by
    have hcounts : mark absolute (name, parts.length) = (name, true) := by
      simp [mark, hname.1, hname.2.1]
    rw [marked_eq, isAbsolute_of_text hpath hslash]
    change (_, List.reverse (List.map (mark absolute) (List.zipIdx (List.map String.ofList
      (Pointer.splitAt '/' (if absolute = true then path.toList.drop 1 else path.toList)))))) = _
    rw [hsame, Pointer.splitAt_append_name hbody hslash, List.map_append, List.map_singleton,
      String.ofList_toList, List.zipIdx_append, List.map_append, List.reverse_append,
      List.zipIdx_singleton, Nat.zero_add, List.map_singleton, hcounts]
    rfl
  simp only [parent?, hmarked]
  rw [List.dropWhile_cons_of_neg (by simp)]

theorem not_mem_of_mem_components {part : String} (h : part ∈ components path) :
    '/' ∉ part.toList := by
  obtain ⟨mark, hmark, rfl⟩ := List.mem_map.1 h
  have hin := (List.mem_filter.1 (List.mem_reverse.1 hmark)).1
  simp only [marked_eq, List.mem_reverse, List.mem_map] at hin
  obtain ⟨⟨part, i⟩, hin, rfl⟩ := hin
  obtain ⟨text, htext, rfl⟩ := List.mem_map.1 (List.fst_mem_of_mem_zipIdx hin)
  rw [Path.mark, String.toList_ofList]
  exact Pointer.not_mem_of_mem_splitAt htext

theorem not_mem_of_fileName? (h : fileName? path = some name) : '/' ∉ name.toList :=
  not_mem_of_mem_components (List.mem_of_getLast? (Option.filter_eq_some_iff.1 h).1)

/-- The name at the end of a path has no slash. -/
theorem not_mem_stem (path : String) : '/' ∉ (stem path).toList := by
  rw [stem]
  cases hname : fileName? path with
  | none => simp
  | some name =>
    have hslash := not_mem_of_fileName? hname
    rw [Option.map_some, Option.getD_some]
    simp only [cutName]
    split
    · rename_i last before hcut
      split_ifs
      · exact hslash
      · rw [String.toList_ofList]
        intro hmem
        have hdrop := List.mem_cons_of_mem last (List.mem_reverse.1 hmem)
        rw [← hcut] at hdrop
        exact hslash (List.mem_reverse.1 (List.mem_of_mem_drop hdrop))
    · exact hslash

end Path

namespace Workspace

open TableExport.Path
open Pointer (EndsPart)

variable {workspace : Workspace} {base path other name name' : String} {front : List Char}

/-- **The files of a folder are reached by the same parts before their names**, but for a path that
is that of the root. -/
theorem exists_partsOf?_of_text (workspace : Workspace) (hfront : EndsPart '/' front) :
    ∃ before, ∀ path name parts, path.toList = front ++ name.toList → '/' ∉ name.toList →
      workspace.partsOf? path = some parts → parts = [] ∨ parts = before ++ [name] := by
  have hsplit : ∀ (text : List Char) (name : String), EndsPart '/' text → '/' ∉ name.toList →
      (Pointer.splitAt '/' (text ++ name.toList)).map String.ofList =
        (Pointer.splitAt '/' text).dropLast.map String.ofList ++ [name] := by
    intro text name htext hslash
    rw [Pointer.splitAt_append_name htext hslash, List.map_append, List.map_singleton,
      String.ofList_toList]
  by_cases hroot : workspace.root ≠ "" ∧ ∃ text, front = workspace.root.toList ++ '/' :: text
  · obtain ⟨hne, text, rfl⟩ := hroot
    have hends : EndsPart '/' text := by
      rw [← List.singleton_append, ← List.append_assoc] at hfront
      exact hfront.of_append
    refine ⟨(Pointer.splitAt '/' text).dropLast.map String.ofList,
      fun path name parts hpath hslash hparts => Or.inr ?_⟩
    rw [List.append_assoc, List.cons_append] at hpath
    rw [partsOf?_of_root hne hpath, hsplit text name hends hslash] at hparts
    exact (Option.some.inj hparts).symm
  · refine ⟨(Pointer.splitAt '/' front).dropLast.map String.ofList,
      fun path name parts hpath hslash hparts => ?_⟩
    rcases partsOf?_cases hparts with ⟨-, -, hnil⟩ | ⟨hne, rest, hrest, -⟩ | ⟨-, hpieces, -⟩
    · exact Or.inl hnil
    · -- the slash after the root is not in the name
      rw [hpath] at hrest
      rcases List.append_eq_append_iff.1 hrest with ⟨more, -, hmore⟩ | ⟨more, hmore, hafter⟩
      · exact absurd (hmore ▸ by simp) hslash
      · cases more with
        | nil =>
          rw [List.nil_append] at hafter
          exact absurd (hafter ▸ List.mem_cons_self) hslash
        | cons c more =>
          cases (List.cons.inj hafter).1
          exact absurd ⟨hne, more, hmore⟩ hroot
    · rw [pieces, hpath, hsplit _ _ hfront hslash] at hpieces
      exact Or.inr hpieces

/-- **Different files of one folder are siblings.** -/
theorem siblings_of_text (workspace : Workspace) (hfront : EndsPart '/' front)
    (hpath : path.toList = front ++ name.toList) (hother : other.toList = front ++ name'.toList)
    (hne : name ≠ name') (hname : IsName name) (hname' : IsName name')
    (hslash : '/' ∉ name.toList) (hslash' : '/' ∉ name'.toList) :
    workspace.Siblings path other := by
  obtain ⟨parent, hparent⟩ := exists_parent?_of_text hfront
  obtain ⟨before, hbefore⟩ := workspace.exists_partsOf?_of_text hfront
  refine ⟨by rw [parentTrail, parentTrail, hparent path name hpath hname hslash,
    hparent other name' hother hname' hslash'], fun htarget => ?_⟩
  -- the target is at the root, or its name is at its end
  have hends : ∀ path name : String, path.toList = front ++ name.toList → IsName name →
      '/' ∉ name.toList → workspace.targetOf path = [] ∨
        workspace.targetOf path = target [] before ++ [name] := by
    intro path name hpath hname hslash
    cases hparts : workspace.partsOf? path with
    | none =>
      rw [targetOf, hparts]
      exact Or.inl rfl
    | some parts =>
      rcases hbefore path name parts hpath hslash hparts with rfl | rfl
      · rw [targetOf, hparts]
        exact Or.inl rfl
      · exact Or.inr (targetOf_of_parts hparts hname)
  rcases hends path name hpath hname hslash with hnil | hat
  · exact hnil
  · rcases hends other name' hother hname' hslash' with hnil' | hat'
    · rw [htarget, hnil']
    · rw [hat, hat'] at htarget
      exact absurd (List.append_inj_right' htarget rfl) (by simpa using hne)

theorem siblings_join (workspace : Workspace) (base : String) (hne : name ≠ name')
    (hname : IsName name) (hname' : IsName name') (hslash : '/' ∉ name.toList)
    (hslash' : '/' ∉ name'.toList) : workspace.Siblings (join base name) (join base name') :=
  workspace.siblings_of_text (endsPart_folderText base) (toList_join base hslash)
    (toList_join base hslash') hne hname hname' hslash hslash'

end Workspace

end TableExport
