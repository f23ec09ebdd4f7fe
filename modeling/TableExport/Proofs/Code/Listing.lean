import TableExport.Code.Declaration
import TableExport.Proofs.Text.Lines

/-!
# The lines of generated files

A generated file is a list of lines (`CodeFile.listing`), of code and of comments. The lines of code
are made of names, and those of comments of what is said about types and fields. When the names
stay on one line, so do the lines of code, and a comment is written line by line behind three
slashes. A carriage return without a line feed after it does not end a line of a comment here,
although it does for a reader of the file: the ends of lines are uniform just when no comment has
one, and then the lines of the file are those of its listing (`CodeFile.lines_render`). Else what is
after the carriage return stands in the file as code (`CodeFile.lines_loneReturn`).

* `CodeFile.toList_render`: the text of a file is its listing, with the ends of lines.
-/

namespace TableExport

/-! ## Listings -/

/-- A line of a file: of a comment or of code, at a depth, or a blank one. -/
inductive CodeLine
  | comment (depth : Nat) (text : String)
  | code (depth : Nat) (text : String)
  | blank
  deriving DecidableEq

namespace CodeLine

/-- The text of a line. That of a comment has three slashes in front. -/
def written : CodeLine → String
  | comment depth text => codeIndent depth ++ "///" ++ text
  | code depth text => codeIndent depth ++ text
  | blank => ""

/-- Whether a line is neither blank nor of a comment. -/
def isCode : CodeLine → Bool
  | code .. => true
  | _ => false

@[simp] theorem isCode_code (depth : Nat) (text : String) : (code depth text).isCode = true := rfl

@[simp] theorem isCode_comment (depth : Nat) (text : String) :
    (comment depth text).isCode = false := rfl

@[simp] theorem isCode_blank : blank.isCode = false := rfl

end CodeLine

section

variable (split : String → List String)

/-- The lines of a comment. -/
def commentListing (depth : Nat) (comment : String) : List CodeLine :=
  .comment depth " <summary>" :: (split comment).map (fun line => .comment depth (" " ++ line)) ++
    [.comment depth " </summary>"]

/-- The lines of a comment that may be missing. -/
def commentListing? (depth : Nat) : Option String → List CodeLine
  | some comment => commentListing split depth comment
  | none => []

/-- The lines of members, where `commented` says whether the one before has a comment. A blank line
stands between two members of which one has a comment. -/
def membersListing (depth : Nat) (commented : Option Bool) : List MemberLine → List CodeLine
  | [] => []
  | member :: rest =>
    let gap := match commented with
      | some before => if before || member.comment.isSome then [.blank] else []
      | none => []
    gap ++ commentListing? split depth member.comment ++ .code depth member.text ::
      membersListing depth (some member.comment.isSome) rest

/-- The lines of a declaration. -/
def Declaration.listing (depth : Nat) (declaration : Declaration) : List CodeLine :=
  commentListing? split depth declaration.comment ++
    [.code depth declaration.header, .code depth "\x7b"] ++
    membersListing split (depth + 1) none declaration.memberLines ++ [.code depth "\x7d"]

/-- The lines of a file, where `split` splits comments into lines. -/
def CodeFile.listing (file : CodeFile) : List CodeLine :=
  [.code 0 "using System.Collections.Generic;", .blank] ++
    [CodeLine.blank].intercalate (file.declarations.map (Declaration.listing split 0))

end

/-- The text of lines, each with its end. -/
def listingText (listing : List CodeLine) : List Char := endLines (listing.map CodeLine.written)

@[simp] theorem listingText_nil : listingText [] = [] := rfl

@[simp] theorem listingText_cons (line : CodeLine) (listing : List CodeLine) :
    listingText (line :: listing) = line.written.toList ++ '\r' :: '\n' :: listingText listing :=
  endLines_cons _ _

@[simp] theorem listingText_append (listing more : List CodeLine) :
    listingText (listing ++ more) = listingText listing ++ listingText more := by
  simp [listingText]

@[simp] theorem toList_codeLine (depth : Nat) (text : String) :
    (codeLine depth text).toList = (codeIndent depth ++ text).toList ++ ['\r', '\n'] := by
  simp [codeLine, lineEnd]

theorem toList_renderComment (depth : Nat) (comment : String) :
    (renderComment depth comment).toList = listingText (commentListing lines depth comment) := by
  have hlines : ∀ found : List String,
      (String.join (found.map fun line => codeLine depth ("/// " ++ line))).toList =
        listingText (found.map fun line => .comment depth (" " ++ line)) := by
    intro found
    induction found with
    | nil => simp
    | cons line found ih => simp [ih, CodeLine.written]
  rw [renderComment, String.toList_append, String.toList_append, hlines, commentListing]
  simp [CodeLine.written]

theorem toList_renderComment? (depth : Nat) (comment : Option String) :
    (renderComment? depth comment).toList = listingText (commentListing? lines depth comment) := by
  cases comment with
  | none => rfl
  | some comment => exact toList_renderComment depth comment

theorem toList_renderMembers (depth : Nat) (commented : Option Bool) (members : List MemberLine) :
    (renderMembers depth commented members).toList =
      listingText (membersListing lines depth commented members) := by
  induction members generalizing commented with
  | nil => rfl
  | cons member rest ih =>
    have hgap : ∀ (p : Prop) [Decidable p], (if p then lineEnd else "").toList =
        listingText (if p then [CodeLine.blank] else []) := by
      intro p _
      split_ifs <;> rfl
    cases commented with
    | none => simp [renderMembers, membersListing, toList_renderComment?, ih, CodeLine.written]
    | some before =>
      simp [renderMembers, membersListing, toList_renderComment?, ih, hgap, CodeLine.written]

theorem Declaration.toList_render (depth : Nat) (declaration : Declaration) :
    (declaration.render depth).toList = listingText (declaration.listing lines depth) := by
  simp [render, listing, toList_renderComment?, toList_renderMembers, CodeLine.written]

/-- **The text of a file is its listing**, where comments are split at line feeds. -/
theorem CodeFile.toList_render (file : CodeFile) :
    file.render.toList = listingText (file.listing lines) := by
  have hdeclarations : ∀ declarations : List Declaration,
      (lineEnd.intercalate (declarations.map (Declaration.render 0))).toList =
        listingText ([CodeLine.blank].intercalate
          (declarations.map (Declaration.listing lines 0))) := by
    intro declarations
    induction declarations with
    | nil => rfl
    | cons declaration rest ih =>
      cases rest with
      | nil => simp [Declaration.toList_render]
      | cons next rest =>
        simp only [List.map_cons, String.intercalate_cons_cons, List.intercalate_cons_cons] at ih ⊢
        rw [String.toList_append, String.toList_append, ih, Declaration.toList_render]
        simp [CodeLine.written, lineEnd]
  rw [render, String.toList_append, hdeclarations, listing]
  simp [CodeLine.written, lineEnd, toList_codeLine]

/-! ## Names and comments -/

/-- The names that a declaration is made of. -/
def Declaration.names : Declaration → List String
  | .object name _ _ members =>
    name :: members.flatMap fun member => [member.typeName, member.name]
  | .enumeration name _ members => name :: members.map EnumMember.name

/-- What is said about a declaration and its members. -/
def Declaration.comments (declaration : Declaration) : List String :=
  declaration.comment.toList ++ declaration.memberLines.filterMap MemberLine.comment

/-- The lines of code of a declaration. -/
def Declaration.codeLines (depth : Nat) (declaration : Declaration) : List CodeLine :=
  [.code depth declaration.header, .code depth "\x7b"] ++
    declaration.memberLines.map (fun member => .code (depth + 1) member.text) ++
    [.code depth "\x7d"]

namespace CodeFile

/-- The names that a file is made of. -/
def names (file : CodeFile) : List String := file.declarations.flatMap Declaration.names

/-- The comments of a file. -/
def comments (file : CodeFile) : List String := file.declarations.flatMap Declaration.comments

/-- The lines of code of a file. -/
def codeLines (file : CodeFile) : List CodeLine :=
  .code 0 "using System.Collections.Generic;" ::
    file.declarations.flatMap (Declaration.codeLines 0)

end CodeFile

section

variable (split : String → List String)

/-- The lines of a declaration without the blank ones. -/
def Declaration.fullListing (depth : Nat) (declaration : Declaration) : List CodeLine :=
  commentListing? split depth declaration.comment ++
    [.code depth declaration.header, .code depth "\x7b"] ++
    declaration.memberLines.flatMap (fun member =>
      commentListing? split (depth + 1) member.comment ++ [.code (depth + 1) member.text]) ++
    [.code depth "\x7d"]

/-- The lines of a file without the blank ones. -/
def CodeFile.fullListing (file : CodeFile) : List CodeLine :=
  .code 0 "using System.Collections.Generic;" ::
    file.declarations.flatMap (Declaration.fullListing split 0)

variable {split} {p : CodeLine → Bool}

theorem filter_membersListing (hp : p .blank = false) (depth : Nat) (commented : Option Bool)
    (members : List MemberLine) :
    (membersListing split depth commented members).filter p =
      (members.flatMap fun member =>
        commentListing? split depth member.comment ++ [.code depth member.text]).filter p := by
  induction members generalizing commented with
  | nil => rfl
  | cons member rest ih =>
    have hgap : ∀ (q : Prop) [Decidable q], (if q then [CodeLine.blank] else []).filter p = [] := by
      intro q _
      split_ifs
      · rw [List.filter_cons, hp]
        rfl
      · rfl
    cases commented with
    | none => simp [membersListing, List.filter_cons, ih]
    | some before => simp [membersListing, List.filter_cons, hgap, ih]

theorem Declaration.filter_listing (hp : p .blank = false) (depth : Nat)
    (declaration : Declaration) :
    (declaration.listing split depth).filter p = (declaration.fullListing split depth).filter p := by
  simp only [listing, fullListing, List.filter_append, filter_membersListing hp]

theorem CodeFile.filter_listing (hp : p .blank = false) (file : CodeFile) :
    (file.listing split).filter p = (file.fullListing split).filter p := by
  have hdeclarations : ∀ declarations : List Declaration,
      ([CodeLine.blank].intercalate (declarations.map (Declaration.listing split 0))).filter p =
        (declarations.flatMap (Declaration.fullListing split 0)).filter p := by
    intro declarations
    induction declarations with
    | nil => rfl
    | cons declaration rest ih =>
      cases rest with
      | nil => simp [Declaration.filter_listing hp]
      | cons next rest =>
        simp only [List.map_cons, List.intercalate_cons_cons, List.flatMap_cons] at ih ⊢
        simp [Declaration.filter_listing hp, ih, hp]
  have hheader (first : CodeLine) : [first, .blank].filter p = [first].filter p := by
    simp [List.filter_cons, hp]
  rw [listing, fullListing, List.filter_append, hheader, hdeclarations, ← List.filter_append]
  rfl

theorem CodeFile.mem_listing {file : CodeFile} {line : CodeLine} (h : line ≠ .blank) :
    line ∈ file.listing split ↔ line ∈ file.fullListing split := by
  have hfilter : (file.listing split).filter (fun other => decide (other ≠ .blank)) =
      (file.fullListing split).filter fun other => decide (other ≠ .blank) :=
    file.filter_listing (by simp)
  have hmem := congrArg (line ∈ ·) hfilter
  simpa [List.mem_filter, h] using hmem

/-- **The lines of code of a file are made of its names.** -/
theorem CodeFile.filter_isCode (file : CodeFile) :
    (file.listing split).filter CodeLine.isCode = file.codeLines := by
  have hcomment : ∀ depth comment,
      (commentListing? split depth comment).filter CodeLine.isCode = [] := by
    intro depth comment
    cases comment with
    | none => rfl
    | some comment =>
      simp [commentListing?, commentListing, List.filter_map, Function.comp_def]
  have hdeclaration : ∀ declaration : Declaration,
      (declaration.fullListing split 0).filter CodeLine.isCode = declaration.codeLines 0 := by
    intro declaration
    simp [Declaration.fullListing, Declaration.codeLines, List.filter_flatMap, List.filter_cons,
      hcomment, List.map_eq_flatMap]
  rw [file.filter_listing rfl, fullListing, codeLines, List.filter_cons_of_pos rfl,
    List.filter_flatMap]
  simp [hdeclaration]

/-! ### The lines of comments -/

/-- Each line of a comment is a line of the file. -/
theorem CodeFile.exists_mem_listing {file : CodeFile} {comment line : String}
    (hcomment : comment ∈ file.comments) (hline : line ∈ split comment) :
    ∃ depth, .comment depth (" " ++ line) ∈ file.listing split := by
  have hlisting : ∀ depth, .comment depth (" " ++ line) ∈
      commentListing? split depth (some comment) := by
    intro depth
    simp [commentListing?, commentListing, hline]
  obtain ⟨declaration, hdeclaration, hcomment⟩ := List.mem_flatMap.1 hcomment
  have hfull : ∃ depth, .comment depth (" " ++ line) ∈ declaration.fullListing split 0 := by
    rcases List.mem_append.1 hcomment with hcomment | hcomment
    · refine ⟨0, ?_⟩
      have hlisting := hlisting 0
      rw [← Option.mem_toList.1 hcomment] at hlisting
      simp [Declaration.fullListing, hlisting]
    · refine ⟨1, ?_⟩
      obtain ⟨member, hmember, hcomment⟩ := List.mem_filterMap.1 hcomment
      have hlisting := hlisting 1
      rw [← hcomment] at hlisting
      simp only [Declaration.fullListing, List.mem_append, List.mem_flatMap]
      exact Or.inl (Or.inr ⟨member, hmember, Or.inl hlisting⟩)
  obtain ⟨depth, hfull⟩ := hfull
  refine ⟨depth, (mem_listing (by simp)).2 ?_⟩
  exact List.mem_cons_of_mem _ (List.mem_flatMap.2 ⟨declaration, hdeclaration, hfull⟩)

theorem endFree_codeIndent (depth : Nat) : EndFree (codeIndent depth).toList := by
  rw [codeIndent, String.toList_ofList]
  constructor <;> simp [List.mem_replicate]

theorem endFree_commentListing? {depth : Nat} {comment : Option String}
    (h : ∀ said ∈ comment, ∀ line ∈ split said, EndFree line.toList) :
    ∀ line ∈ commentListing? split depth comment, EndFree line.written.toList := by
  have hwritten : ∀ text : String, EndFree text.toList →
      EndFree (CodeLine.comment depth text).written.toList := by
    intro text htext
    simp only [CodeLine.written, String.toList_append, endFree_append]
    exact ⟨⟨endFree_codeIndent depth, by decide⟩, htext⟩
  intro line hline
  cases comment with
  | none => cases hline
  | some comment =>
    simp only [commentListing?, commentListing, List.mem_append, List.mem_cons, List.mem_map,
      List.not_mem_nil, or_false] at hline
    rcases hline with (rfl | ⟨said, hsaid, rfl⟩) | rfl
    · exact hwritten _ (by decide)
    · refine hwritten _ ?_
      rw [String.toList_append, endFree_append]
      exact ⟨by decide, h comment rfl said hsaid⟩
    · exact hwritten _ (by decide)

/-! ### The lines of names -/

namespace Declaration

variable {declaration : Declaration}

theorem endFree_header (h : ∀ name ∈ declaration.names, EndFree name.toList) :
    EndFree declaration.header.toList := by
  cases declaration with
  | object name comment isStruct members =>
    have hname := h name List.mem_cons_self
    simp only [header, String.toList_append, endFree_append]
    refine ⟨⟨⟨by decide, ?_⟩, by decide⟩, hname⟩
    cases isStruct <;> decide
  | enumeration name comment members =>
    have hname := h name List.mem_cons_self
    simp only [header, String.toList_append, endFree_append]
    exact ⟨by decide, hname⟩

theorem endFree_memberLines (h : ∀ name ∈ declaration.names, EndFree name.toList) :
    ∀ member ∈ declaration.memberLines, EndFree member.text.toList := by
  intro line hline
  cases declaration with
  | object name comment isStruct members =>
    obtain ⟨member, hmember, rfl⟩ := List.mem_map.1 hline
    have hnames : ∀ own ∈ [member.typeName, member.name], EndFree own.toList := fun own hown =>
      h own (List.mem_cons_of_mem _ (List.mem_flatMap.2 ⟨member, hmember, hown⟩))
    have htype := hnames member.typeName (by simp)
    have hname := hnames member.name (by simp)
    simp only [ObjectMember.line, String.toList_append, endFree_append]
    refine ⟨⟨⟨⟨by decide, ?_⟩, by decide⟩, hname⟩, by decide⟩
    split
    · simp only [String.toList_append, endFree_append]
      exact ⟨⟨by decide, htype⟩, by decide⟩
    · exact htype
  | enumeration name comment members =>
    obtain ⟨member, hmember, rfl⟩ := List.mem_map.1 hline
    have hname := h member.name (List.mem_cons_of_mem _ (List.mem_map_of_mem hmember))
    simp only [EnumMember.line, String.toList_append, endFree_append]
    exact ⟨hname, by decide⟩

theorem endFree_fullListing (hnames : ∀ name ∈ declaration.names, EndFree name.toList)
    (hcomments : ∀ comment ∈ declaration.comments, ∀ line ∈ split comment, EndFree line.toList)
    (depth : Nat) :
    ∀ line ∈ declaration.fullListing split depth, EndFree line.written.toList := by
  have hcode : ∀ depth (text : String), EndFree text.toList →
      EndFree (CodeLine.code depth text).written.toList := by
    intro depth text htext
    rw [CodeLine.written, String.toList_append, endFree_append]
    exact ⟨endFree_codeIndent depth, htext⟩
  intro line hline
  simp only [fullListing, List.mem_append, List.mem_cons, List.not_mem_nil, or_false,
    List.mem_flatMap] at hline
  rcases hline with ((hline | rfl | rfl) | ⟨member, hmember, hline | rfl⟩) | rfl
  · exact endFree_commentListing? (fun said hsaid => hcomments said
      (List.mem_append_left _ (Option.mem_toList.2 hsaid))) line hline
  · exact hcode _ _ (endFree_header hnames)
  · exact hcode _ _ (by decide)
  · exact endFree_commentListing? (fun said hsaid => hcomments said
      (List.mem_append_right _ (List.mem_filterMap.2 ⟨member, hmember, hsaid⟩))) line hline
  · exact hcode _ _ (endFree_memberLines hnames member hmember)
  · exact hcode _ _ (by decide)

end Declaration

/-! ### Ways to split comments -/

variable {split' : String → List String}

theorem commentListing?_congr {comment : Option String}
    (h : ∀ said ∈ comment, split said = split' said) (depth : Nat) :
    commentListing? split depth comment = commentListing? split' depth comment := by
  cases comment with
  | none => rfl
  | some said => simp only [commentListing?, commentListing, h said rfl]

theorem membersListing_congr {members : List MemberLine}
    (h : ∀ member ∈ members, ∀ said ∈ member.comment, split said = split' said) (depth : Nat)
    (commented : Option Bool) :
    membersListing split depth commented members =
      membersListing split' depth commented members := by
  induction members generalizing commented with
  | nil => rfl
  | cons member rest ih =>
    rw [List.forall_mem_cons] at h
    cases commented <;> simp only [membersListing, commentListing?_congr h.1, ih h.2]

theorem Declaration.listing_congr {declaration : Declaration}
    (h : ∀ comment ∈ declaration.comments, split comment = split' comment) (depth : Nat) :
    declaration.listing split depth = declaration.listing split' depth := by
  rw [comments, List.forall_mem_append] at h
  have hmembers : ∀ member ∈ declaration.memberLines, ∀ said ∈ member.comment,
      split said = split' said := fun member hmember said hsaid =>
    h.2 said (List.mem_filterMap.2 ⟨member, hmember, hsaid⟩)
  rw [listing, listing, membersListing_congr hmembers,
    commentListing?_congr fun said hsaid => h.1 said (Option.mem_toList.2 hsaid)]

namespace CodeFile

variable {file : CodeFile}

theorem endFree_listing (hnames : ∀ name ∈ file.names, EndFree name.toList)
    (hcomments : ∀ comment ∈ file.comments, ∀ line ∈ split comment, EndFree line.toList) :
    ∀ line ∈ (file.listing split).map CodeLine.written, EndFree line.toList := by
  intro text htext
  obtain ⟨line, hline, rfl⟩ := List.mem_map.1 htext
  by_cases hblank : line = .blank
  · rw [hblank]
    decide
  · rcases List.mem_cons.1 ((mem_listing hblank).1 hline) with rfl | hline
    · decide
    · obtain ⟨declaration, hdeclaration, hline⟩ := List.mem_flatMap.1 hline
      exact Declaration.endFree_fullListing
        (fun name hname => hnames name (List.mem_flatMap.2 ⟨declaration, hdeclaration, hname⟩))
        (fun comment hcomment => hcomments comment
          (List.mem_flatMap.2 ⟨declaration, hdeclaration, hcomment⟩)) 0 line hline

/-- Two ways to split the comments of a file into the same lines give the same listing. -/
theorem listing_congr (h : ∀ comment ∈ file.comments, split comment = split' comment) :
    file.listing split = file.listing split' := by
  rw [listing, listing, List.map_congr_left fun declaration hdeclaration =>
    Declaration.listing_congr (fun comment hcomment =>
      h comment (List.mem_flatMap.2 ⟨declaration, hdeclaration, hcomment⟩)) 0]

/-- The ends of lines in a file are uniform only if they are in its comments. -/
theorem pairedReturns_of_uniformEnds (h : UniformEnds file.render.toList) :
    ∀ comment ∈ file.comments, PairedReturns comment.toList := by
  intro comment hcomment
  refine pairedReturns_of_lines fun line hline => ?_
  obtain ⟨depth, hmem⟩ := exists_mem_listing hcomment hline
  have hreturns := h.feeds
  rw [file.toList_render] at hreturns
  have hwritten := not_mem_of_pairedReturns hreturns (List.mem_map_of_mem hmem)
  simp only [CodeLine.written, String.toList_append, List.mem_append, not_or] at hwritten
  refine (hwritten ?_).2.2
  exact ⟨⟨(endFree_codeIndent depth).2, by decide⟩, by decide, feed_not_mem_of_mem_lines hline⟩

/-- **Comments do not escape, and the ends of lines are uniform.** In a file whose names stay on one
line, a carriage return stands without a line feed after it, or the other way round, only if one
does so in a comment. If not, the lines of the file are those of its listing, where each line of a
comment has three slashes in front, and the lines of code are made of the names. -/
theorem lines_render (hnames : ∀ name ∈ file.names, EndFree name.toList) :
    (UniformEnds file.render.toList ↔ ∀ comment ∈ file.comments, PairedReturns comment.toList) ∧
    ((∀ comment ∈ file.comments, PairedReturns comment.toList) →
      textLines file.render = (file.listing textLines).map CodeLine.written) ∧
    (file.listing textLines).filter CodeLine.isCode = file.codeLines := by
  have hfree : ∀ line ∈ (file.listing textLines).map CodeLine.written, EndFree line.toList :=
    endFree_listing hnames fun _ _ _ hline => endFree_of_mem_textLines hline
  have hrender : (∀ comment ∈ file.comments, PairedReturns comment.toList) →
      file.render.toList = endLines ((file.listing textLines).map CodeLine.written) := by
    intro hcomments
    rw [file.toList_render, listing_congr fun comment hcomment =>
      lines_eq_textLines (hcomments comment hcomment)]
    rfl
  refine ⟨⟨pairedReturns_of_uniformEnds, fun hcomments => ?_⟩, fun hcomments => ?_,
    file.filter_isCode⟩
  · rw [hrender hcomments]
    exact uniformEnds_endLines hfree
  · rw [textLines, hrender hcomments, splitEnds_endLines hfree, List.map_map]
    simp [Function.comp_def]

/-- A file with comments of several lines. -/
def pieceFile : CodeFile :=
  ⟨"Piece.generated.cs", [
    .object "Piece" (some "A piece\r\n\nof an item\n") true [
      ⟨"size", "int", false, none⟩, ⟨"tags", "string", true, some ""⟩]]⟩

theorem lines_render_piece :
    (∀ name ∈ pieceFile.names, EndFree name.toList) ∧
    (∀ comment ∈ pieceFile.comments, PairedReturns comment.toList) ∧
    UniformEnds pieceFile.render.toList ∧ textLines pieceFile.render = [
      "using System.Collections.Generic;", "", "/// <summary>", "/// A piece", "/// ",
      "/// of an item", "/// </summary>", "public struct Piece", "\x7b", "    public int size;", "",
      "    /// <summary>", "    /// </summary>", "    public List<string> tags;", "\x7d"] := by
  have hnames : ∀ name ∈ pieceFile.names, EndFree name.toList := by decide +kernel
  have hlines : ∀ comment ∈ pieceFile.comments, ∀ line ∈ lines comment, '\r' ∉ line.toList := by
    decide +kernel
  have hcomments : ∀ comment ∈ pieceFile.comments, PairedReturns comment.toList :=
    fun comment hcomment => pairedReturns_of_lines (hlines comment hcomment)
  obtain ⟨huniform, hlisting, -⟩ := lines_render hnames
  exact ⟨hnames, hcomments, huniform.2 hcomments,
    (hlisting hcomments).trans (by decide +kernel)⟩

/-- A carriage return in a comment without a line feed after it. -/
def loneReturnFile : CodeFile :=
  ⟨"Piece.generated.cs", [.object "Piece" (some "A piece\rpublic int size;") true []]⟩

/-- What is after a carriage return in a comment stands in the file as code. -/
theorem lines_loneReturn :
    (∀ name ∈ loneReturnFile.names, EndFree name.toList) ∧
    ¬ UniformEnds loneReturnFile.render.toList ∧ textLines loneReturnFile.render = [
      "using System.Collections.Generic;", "", "/// <summary>", "/// A piece", "public int size;",
      "/// </summary>", "public struct Piece", "\x7b", "\x7d"] := by
  refine ⟨by decide +kernel, fun huniform => ?_, by decide +kernel⟩
  have hfeed := huniform.feeds (loneReturnFile.render.toList.take 63)
    (loneReturnFile.render.toList.drop 64) (by decide +kernel)
  exact absurd hfeed (by decide +kernel)

end CodeFile

end

end TableExport
