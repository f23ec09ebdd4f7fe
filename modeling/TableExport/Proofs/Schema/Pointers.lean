import TableExport.Proofs.Files.Siblings
import TableExport.Proofs.Reference
import TableExport.Proofs.Schema.Places
import TableExport.Validation.Violation

/-!
# Writing pointers

A path of names and indices is written as a pointer by escaping each segment, and it is read back
from the pointer: a segment is restored by two replacements, of which the first leaves the tildes
escaped that the second restores (`Pointer.unescape_escape`), and no segment has a slash that the
pointer would be split at (`Pointer.segments_pointer`). So a pointer leads where its path does
(`Pointer.lookup_of_descend?`), whatever characters the names have.
-/

namespace TableExport

namespace Pointer

/-! ## Segments -/

section Replacing

variable {first second replacement : Char}

theorem replacePair_pair (rest : List Char) :
    replacePair first second replacement (first :: second :: rest) =
      replacement :: replacePair first second replacement rest := by
  rw [replacePair, if_pos ⟨rfl, rfl⟩]

theorem replacePair_cons_of_ne {c : Char} (h : c ≠ first) (rest : List Char) :
    replacePair first second replacement (c :: rest) =
      c :: replacePair first second replacement rest := by
  cases rest with
  | nil => rfl
  | cons next rest => rw [replacePair, if_neg fun hpair => h hpair.1]

theorem replacePair_cons_cons_of_ne {first' next : Char} (h : next ≠ second) (rest : List Char) :
    replacePair first second replacement (first' :: next :: rest) =
      first' :: replacePair first second replacement (next :: rest) := by
  rw [replacePair, if_neg fun hpair => h hpair.2]

end Replacing

/-- The characters of a text with tildes escaped, and slashes as they are. -/
def escapeTildes (text : List Char) : List Char :=
  text.flatMap fun c => if c = '~' then ['~', '0'] else [c]

/-- Restoring the slashes leaves the tildes escaped, as a zero follows each of them. -/
theorem replacePair_escapeChars (text : List Char) :
    replacePair '~' '1' '/' (escapeChars text) = escapeTildes text := by
  induction text with
  | nil => rfl
  | cons c rest ih =>
    rw [escapeChars, escapeTildes, List.flatMap_cons, List.flatMap_cons, ← escapeChars,
      ← escapeTildes, ← ih]
    by_cases htilde : c = '~'
    · rw [if_pos htilde, if_pos htilde]
      exact (replacePair_cons_cons_of_ne (by decide) _).trans
        (congrArg _ (replacePair_cons_of_ne (by decide) _))
    · rw [if_neg htilde, if_neg htilde]
      by_cases hslash : c = '/'
      · rw [if_pos hslash, hslash]
        exact replacePair_pair _
      · rw [if_neg hslash]
        exact replacePair_cons_of_ne htilde _

theorem replacePair_escapeTildes (text : List Char) :
    replacePair '~' '0' '~' (escapeTildes text) = text := by
  induction text with
  | nil => rfl
  | cons c rest ih =>
    rw [escapeTildes, List.flatMap_cons, ← escapeTildes]
    by_cases htilde : c = '~'
    · rw [if_pos htilde, htilde]
      exact (replacePair_pair _).trans (congrArg _ ih)
    · rw [if_neg htilde]
      exact (replacePair_cons_of_ne htilde _).trans (congrArg _ ih)

/-- **An escaped text stands for itself.** -/
@[simp] theorem unescape_escape (text : String) : unescape (escape text) = text := by
  rw [unescape, escape, String.toList_ofList, unescapeChars, replacePair_escapeChars,
    replacePair_escapeTildes, String.ofList_toList]

theorem slash_not_mem_escapeChars (text : List Char) : '/' ∉ escapeChars text := by
  intro h
  obtain ⟨c, -, hc⟩ := List.mem_flatMap.1 h
  split_ifs at hc with htilde hslash
  · exact absurd hc (by decide)
  · exact absurd hc (by decide)
  · exact hslash (List.mem_singleton.1 hc).symm

/-- Escaping adds no characters but tildes and digits. -/
theorem mem_of_mem_escapeChars {c : Char} {text : List Char} (h : c ∈ escapeChars text)
    (htilde : c ≠ '~') (hzero : c ≠ '0') (hone : c ≠ '1') : c ∈ text := by
  obtain ⟨source, hsource, hc⟩ := List.mem_flatMap.1 h
  split_ifs at hc
  · simp [htilde, hzero] at hc
  · simp [htilde, hone] at hc
  · exact List.mem_singleton.1 hc ▸ hsource

/-! ## Paths -/

theorem toList_pointer_cons (segment : String) (path : List String) :
    (Violation.pointer (segment :: path)).toList =
      '/' :: (escapeChars segment.toList ++ (Violation.pointer path).toList) := by
  simp [Violation.pointer, escape, String.join_cons]

theorem splitAt_pointer {head : List Char} (h : '/' ∉ head) (path : List String) :
    splitAt '/' (head ++ (Violation.pointer path).toList) =
      head :: path.map fun segment => escapeChars segment.toList := by
  induction path generalizing head with
  | nil =>
    rw [show (Violation.pointer []).toList = [] from rfl, List.append_nil]
    exact splitAt_of_not_mem h
  | cons segment rest ih =>
    rw [toList_pointer_cons, splitAt_append, splitAt_of_not_mem h,
      ih (slash_not_mem_escapeChars segment.toList)]
    rfl

/-- **A pointer is split into the segments it was written with.** -/
theorem segments_pointer (path : List String) :
    segments (Violation.pointer path) = path.map escape := by
  have hsplit : splitAt '/' ([] ++ (Violation.pointer path).toList) = _ :=
    splitAt_pointer List.not_mem_nil path
  rw [List.nil_append] at hsplit
  rw [segments, hsplit, List.drop_succ_cons, List.drop_zero, List.map_map]
  rfl

theorem unescape_segments_pointer (path : List String) :
    (segments (Violation.pointer path)).map unescape = path := by
  rw [segments_pointer, List.map_map]
  exact (List.map_congr_left fun segment _ => unescape_escape segment).trans (List.map_id path)

/-- **Looking up a pointer walks its path.** -/
theorem lookup_pointer (value : Json) (path : List String) :
    lookup value (Violation.pointer path) = walk value path := by
  rw [lookup, unescape_segments_pointer]

theorem head?_pointer {path : List String} (h : path ≠ []) :
    (Violation.pointer path).toList.head? = some '/' := by
  obtain ⟨segment, rest, rfl⟩ := List.exists_cons_of_ne_nil h
  rw [toList_pointer_cons, List.head?_cons]

/-- Each line feed of a pointer is one of a segment. -/
theorem feed_not_mem_pointer {path : List String} (h : ∀ segment ∈ path, '\n' ∉ segment.toList) :
    '\n' ∉ (Violation.pointer path).toList := by
  induction path with
  | nil => exact List.not_mem_nil
  | cons segment rest ih =>
    obtain ⟨hsegment, hrest⟩ := List.forall_mem_cons.1 h
    rw [toList_pointer_cons, List.mem_cons, List.mem_append, not_or, not_or]
    refine ⟨by decide, fun hmem => hsegment ?_, ih hrest⟩
    exact mem_of_mem_escapeChars hmem (by decide) (by decide) (by decide)

end Pointer

/-! ## Steps into a value -/

namespace Json

/-- A step from a value to one of its parts: to the member with a name, or to the item at an index
that fits 64 bits. -/
inductive Step
  | key (name : String)
  | index (i : UInt64)

/-- The segment of a pointer that makes a step. -/
def Step.segment : Step → String
  | key name => name
  | index i => toString i.toNat

/-- The part of a value that a step leads to. -/
def part? : Json → Step → Option Json
  | .obj members, .key name => Entries.get? members name
  | .arr items, .index i => items[i.toNat]?
  | _, _ => none

/-- The part of a value that a path leads to. -/
def descend? (value : Json) (path : List Step) : Option Json := path.foldlM part? value

end Json

namespace Pointer

/-- The pointer of a path. -/
def ofPath (path : List Json.Step) : String := Violation.pointer (path.map Json.Step.segment)

theorem child?_of_part? {value part : Json} {step : Json.Step}
    (h : value.part? step = some part) : child? value step.segment = some part := by
  cases step with
  | key name =>
    cases value with
    | obj members => exact h
    | _ => cases h
  | index i =>
    cases value with
    | arr items =>
      have hi : i.toNat ≤ Literal.maxCount := Nat.le_pred_of_lt i.toNat_lt
      rw [child?, Json.Step.segment, Literal.count?_toString hi]
      exact h
    | _ => cases h

/-- **A pointer leads where its path does.** -/
theorem lookup_of_descend? {value part : Json} {path : List Json.Step}
    (h : value.descend? path = some part) : lookup value (ofPath path) = .ok part := by
  rw [ofPath, lookup_pointer]
  induction path generalizing value with
  | nil =>
    cases h
    rfl
  | cons step rest ih =>
    obtain ⟨child, hchild, hrest⟩ := Option.bind_eq_some_iff.1 h
    rw [List.map_cons, walk, child?_of_part? hchild]
    exact ih hrest

/-- A path whose names have no line feed is written as a pointer that references can hold. -/
theorem isPointer_ofPath {path : List Json.Step}
    (h : ∀ name, .key name ∈ path → '\n' ∉ name.toList) :
    SchemaReference.IsPointer (ofPath path) := by
  rcases eq_or_ne path [] with rfl | hne
  · exact Or.inl rfl
  · refine Or.inr ⟨head?_pointer (by simpa using hne), feed_not_mem_pointer fun segment hs => ?_⟩
    obtain ⟨step, hstep, rfl⟩ := List.mem_map.1 hs
    cases step with
    | key name => exact h name hstep
    | index i =>
      intro hmem
      rw [Json.Step.segment, Nat.toString_eq_ofList_toDigits, String.toList_ofList] at hmem
      exact absurd (Literal.isDigit_of_mem_toDigits _ hmem) (by decide)

end Pointer

end TableExport
