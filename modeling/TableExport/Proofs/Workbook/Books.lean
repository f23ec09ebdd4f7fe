import TableExport.Proofs.Workbook.Written

/-!
# Books with one sheet

A book with one sheet, packed without compression, is read as the cells that are written in its
sheet, if none of them is a shared string (`Workbook.readSheet_bookOf`).
-/

namespace TableExport

section

variable {archive : Archive} {events relations : List Markup.Event} {path name part : String}

/-- A workbook lists its sheets in one part, and says in another where they are stored. -/
theorem Contents.ofArchive_of_events {parts : Entries String}
    (hrelations : archive.events? "xl/_rels/workbook.xml.rels" = .ok (some relations))
    (hevents : archive.events? "xl/workbook.xml" = .ok (some events))
    (hparts : Part.fold [] relate [] relations = .ok parts) :
    ofArchive archive = Part.fold [] (list parts) {} events := by
  simp only [ofArchive, Archive.requireEvents, hrelations, hevents, bind, Except.bind, pure,
    Except.pure, hparts]

namespace Workbook

theorem ofBytes_of_archive {bytes : ByteArray} {contents : Contents}
    (hopen : Archive.open? bytes = some archive)
    (hcontents : Contents.ofArchive archive = .ok contents)
    (hsheets : contents.sheets.isEmpty = false)
    (hstyles : archive.events? "xl/styles.xml" = .ok none) :
    ofBytes path bytes = .ok ⟨path, archive, contents, []⟩ := by
  rw [ofBytes, hopen]
  simp only [hcontents, hsheets, Styles.ofArchive, hstyles, bind, Except.bind, pure, Except.pure,
    Bool.false_eq_true, if_false]

/-- A sheet without shared strings is read from its own part alone. -/
theorem readSheet_of_events {workbook : Workbook} {scan : Worksheet.Scan}
    (hpart : Entries.get? workbook.contents.sheets name = some part)
    (hevents : workbook.archive.events? part = .ok (some events))
    (hscan : Worksheet.read workbook.name name workbook.styles events = .ok scan)
    (hshared : scan.hasShared = false) : workbook.readSheet name = .ok scan.sheet := by
  rw [readSheet, hpart]
  simp only [Archive.requireEvents, hevents, bind, Except.bind, pure, Except.pure, hscan, hshared,
    Bool.false_eq_true, if_false]

end Workbook

end

namespace Workbook

open Worksheet

/-- The relation of the only sheet of a book. -/
def oneRelation : String := "<Relationship Id=\"a\" Target=\"s\"/>"

/-- The list of sheets with only one. -/
def oneSheet : String := "<sheet name=\"Data\" id=\"a\"/>"

/-- The parts of a book whose sheet has a text. -/
def bookParts (text : String) : List (String × ByteArray) :=
  [("xl/_rels/workbook.xml.rels", oneRelation.toUTF8), ("xl/workbook.xml", oneSheet.toUTF8),
    ("xl/s", text.toUTF8)]

/-- A book whose sheet has a text. -/
def bookOf (text : String) : ByteArray := Archive.pack (bookParts text)

variable {text : String}

theorem fold_oneRelation :
    Part.fold [] Contents.relate [] (Markup.read oneRelation.toUTF8.toList true) =
      .ok [("a", "xl/s")] := by
  cbv

theorem fold_oneSheet :
    Part.fold [] (Contents.list [("a", "xl/s")]) {} (Markup.read oneSheet.toUTF8.toList true) =
      .ok { sheets := [("Data", "xl/s")] } := by
  cbv

/-- A book lists its sheet. -/
theorem ofArchive_bookParts (h : Archive.Packable (bookParts text)) :
    Contents.ofArchive (Archive.packed (bookParts text)) =
      .ok { sheets := [("Data", "xl/s")] } := by
  rw [Contents.ofArchive_of_events (Archive.events?_packed h List.mem_cons_self)
    (Archive.events?_packed h (List.mem_cons_of_mem _ List.mem_cons_self)) fold_oneRelation]
  exact fold_oneSheet

/-- **A book with one sheet is read as its cells.** -/
theorem readSheet_bookOf {forms : List RowForm} (h : Archive.Packable (bookParts text))
    (hread : Markup.read text.toUTF8.toList true = forms.flatMap RowForm.events)
    (hforms : RowsWritten [] 0 forms)
    (hplain : ∀ cell ∈ cellsOf forms, cell.kind ≠ .sharedString) (path : String) :
    ∃ workbook, ofBytes path (bookOf text) = .ok workbook ∧
      workbook.readSheet "Data" = .ok (Sheet.ofCells path "Data" (cellsOf forms)) := by
  have hstyles : (Archive.packed (bookParts text)).events? "xl/styles.xml" = .ok none :=
    Archive.events?_packed_eq_none (by decide_cbv)
  have hsheet := Archive.events?_packed h
    (List.mem_cons_of_mem _ (List.mem_cons_of_mem _ List.mem_cons_self))
  obtain ⟨scan, hscan, hcells, hshared⟩ :=
    @read_written [] path "Data" forms [] hforms (List.forall_mem_nil _)
  have hnone : scan.hasShared = false := by
    rw [hshared, List.any_eq_false]
    exact fun cell hcell => by simpa using hplain cell hcell
  rw [List.append_nil, ← hread] at hscan
  refine ⟨⟨path, Archive.packed (bookParts text), { sheets := [("Data", "xl/s")] }, []⟩,
    ofBytes_of_archive (Archive.open?_pack h) (ofArchive_bookParts h) rfl hstyles, ?_⟩
  rw [← hcells]
  exact readSheet_of_events rfl hsheet hscan hnone

end Workbook

end TableExport
