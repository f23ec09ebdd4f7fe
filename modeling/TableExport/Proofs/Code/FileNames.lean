import TableExport.Batch.Basic
import TableExport.Proofs.Code.Closure
import TableExport.Proofs.Files.Siblings

/-!
# Names of generated files

The file of a schema document is named for the document up to its first point, with the first letter
in upper case. When no point comes before the ending `.schema.json`, and no number sign
(`PlainStem`), documents whose names differ not only in the case of their first letters have files
with different names (`PlainStem.fileName_ne`). With more points in their names, different documents
may have one file (`Naming.documentFile_versions`).
-/

namespace TableExport

/-! ## Upper case -/

namespace Upper

/-- Only the slash has a slash in its upper-case form. -/
theorem slash_not_mem_ofChar {c : Char} (h : c ≠ '/') : '/' ∉ ofChar c := by
  have hexpansions : ∀ entry ∈ expansions, '/' ∉ entry.2.map Char.ofNat := by decide
  have hranges : ∀ range ∈ ranges, (47 : Int) < range.first + range.shift := by decide +kernel
  rw [ofChar]
  split
  · rename_i codes hcodes
    obtain ⟨before, after, hall, -⟩ := List.lookup_eq_some_iff.1 hcodes
    exact hexpansions (c.toNat, codes) (by rw [hall]; simp)
  · split
    · rename_i range hrange
      have hbound := hranges range (List.mem_of_find?_eq_some hrange)
      have hcontains := List.find?_some hrange
      simp only [Range.contains, Bool.and_eq_true, decide_eq_true_eq] at hcontains
      rw [List.mem_singleton]
      intro hslash
      have hcode : 47 = (Char.ofNat (c.toNat + range.shift).toNat).toNat :=
        congrArg Char.toNat hslash
      rw [Char.toNat_ofNat] at hcode
      split_ifs at hcode
      omega
    · simpa using h.symm

end Upper

theorem toList_capitalize (text : String) :
    (capitalize text).toList =
      (text.toList.head?.map Upper.ofChar).getD [] ++ text.toList.tail := by
  rw [capitalize]
  cases text.toList <;> simp

theorem slash_not_mem_capitalize {text : String} (h : '/' ∉ text.toList) :
    '/' ∉ (capitalize text).toList := by
  rw [toList_capitalize]
  cases htext : text.toList with
  | nil => simp
  | cons c rest =>
    rw [htext, List.mem_cons, not_or] at h
    simpa using ⟨Upper.slash_not_mem_ofChar (Ne.symm h.1), h.2⟩

/-- Two names are the same but for the case of their first letters. -/
def SameLetters (first second : String) : Prop :=
  first.toList.head?.map Upper.ofChar = second.toList.head?.map Upper.ofChar ∧
    first.toList.tail = second.toList.tail

/-- The part of a document's name before the ending, if the file for the code is named for all of it:
it has no point and no number sign, and its first letter has one upper-case letter, not several. -/
structure PlainStem (stem : String) : Prop where
  point : '.' ∉ stem.toList
  sign : '#' ∉ stem.toList
  letter : ∀ c ∈ stem.toList.head?, (Upper.ofChar c).length = 1

namespace PlainStem

variable {first second stem : String}

/-- One letter is put for one letter. -/
theorem capitalize_cases (h : PlainStem stem) :
    (stem.toList = [] ∧ (capitalize stem).toList = []) ∨
      ∃ c upper rest, stem.toList = c :: rest ∧ Upper.ofChar c = [upper] ∧
        (capitalize stem).toList = upper :: rest := by
  rw [toList_capitalize]
  cases hstem : stem.toList with
  | nil => exact Or.inl ⟨rfl, rfl⟩
  | cons c rest =>
    obtain ⟨upper, hupper⟩ := List.length_eq_one_iff.1 (h.letter c (by rw [hstem]; rfl))
    exact Or.inr ⟨c, upper, rest, rfl, hupper, by simp [hupper]⟩

theorem sameLetters_of_capitalize (h : PlainStem first) (h' : PlainStem second)
    (heq : capitalize first = capitalize second) : SameLetters first second := by
  rw [SameLetters]
  rcases h.capitalize_cases with ⟨hfirst, hnil⟩ | ⟨c, upper, rest, hfirst, hupper, hcons⟩ <;>
    rcases h'.capitalize_cases with ⟨hsecond, hnil'⟩ | ⟨d, upper', rest', hsecond, hupper', hcons'⟩
  · rw [hfirst, hsecond]
    exact ⟨rfl, rfl⟩
  · rw [heq, hcons'] at hnil
    cases hnil
  · rw [heq, hnil'] at hcons
    cases hcons
  · rw [heq, hcons'] at hcons
    cases hcons
    rw [hfirst, hsecond]
    exact ⟨congrArg some (hupper.trans hupper'.symm), rfl⟩

/-- The name of the type and of the file for a document is the part before the ending. -/
theorem displayName_document (h : PlainStem stem) (hslash : '/' ∉ stem.toList) :
    displayName (stem ++ Batch.schemaSuffix) = stem := by
  have hsign : ∀ c ∈ (stem ++ Batch.schemaSuffix).toList, (c != '#') = true := by
    intro c hc
    rw [bne_iff_ne]
    rintro rfl
    rw [String.toList_append, List.mem_append] at hc
    exact hc.elim h.sign (by decide)
  have hnoSlash : '/' ∉ (stem ++ Batch.schemaSuffix).toList := by
    rw [String.toList_append, List.mem_append, not_or]
    exact ⟨hslash, by decide⟩
  have hstem : (stem ++ Batch.schemaSuffix).toList.takeWhile (· != '.') = stem.toList := by
    rw [String.toList_append, List.takeWhile_append_of_pos fun c hc => by
      rw [bne_iff_ne]; rintro rfl; exact h.point hc]
    exact List.append_nil _
  have hsegments : (((Pointer.splitAt '/' []).map String.ofList).filter namesType).getLast? =
      none := by decide
  rw [displayName, List.span_eq_takeWhile_dropWhile, List.takeWhile_eq_self_iff.2 hsign,
    List.dropWhile_eq_nil_iff.2 hsign]
  simp only [List.drop_nil, hsegments, documentStem,
    Pointer.splitAt_of_not_mem hnoSlash, List.getLast?_singleton, Option.getD_some, hstem,
    String.ofList_toList]

end PlainStem

/-! ## Files -/

namespace Naming

variable {naming : Naming} {library : Library (Except SchemaError)} {document : String}

theorem name_of_documentFile {file : CodeFile}
    (h : naming.documentFile library document = .ok (some file)) :
    file.name = naming.fileName (displayName document) := by
  obtain ⟨_, _, _, -, -, -, hfile⟩ := documentFile_eq_ok h
  rw [file?] at hfile
  split at hfile
  · cases hfile
  · cases hfile
    rfl

end Naming

/-- **Different documents have different files.** -/
theorem PlainStem.fileName_ne (naming : Naming) {first second : String} (h : PlainStem first)
    (h' : PlainStem second) (hslash : '/' ∉ first.toList) (hslash' : '/' ∉ second.toList)
    (hne : ¬ SameLetters first second) :
    naming.fileName (displayName (first ++ Batch.schemaSuffix)) ≠
      naming.fileName (displayName (second ++ Batch.schemaSuffix)) := by
  rw [h.displayName_document hslash, h'.displayName_document hslash']
  intro heq
  have htexts := congrArg String.toList heq
  simp only [Naming.fileName, String.toList_append] at htexts
  exact hne (h.sameLetters_of_capitalize h'
    (String.ext (List.append_cancel_left (List.append_cancel_right htexts))))

namespace Naming

/-- Two versions of the schema of a table. -/
def versionDocuments : Entries Json :=
  [("Item.v2.schema.json", .obj [("type", .str "object"),
      ("properties", .obj [("id", .obj [("type", .str "integer")])])]),
    ("Item.v3.schema.json", .obj [("type", .str "object"),
      ("properties", .obj [("name", .obj [("type", .str "string")])])])]

/-- The code of different versions goes into one file. -/
theorem documentFile_versions : ∃ file file' : CodeFile,
    Naming.documentFile ⟨""⟩ (Library.ofDocuments versionDocuments 6)
      ("Item.v2" ++ Batch.schemaSuffix) = .ok (some file) ∧
    Naming.documentFile ⟨""⟩ (Library.ofDocuments versionDocuments 6)
      ("Item.v3" ++ Batch.schemaSuffix) = .ok (some file') ∧
    ¬ SameLetters "Item.v2" "Item.v3" ∧ file.name = file'.name ∧ file.render ≠ file'.render :=
  ⟨⟨"Item.generated.cs", [.object "Item" none false [⟨"id", "int", false, none⟩]]⟩,
    ⟨"Item.generated.cs", [.object "Item" none false [⟨"name", "string", false, none⟩]]⟩,
    by decide, by decide, fun h => absurd h.2 (by decide), rfl, by decide⟩

end Naming

end TableExport
