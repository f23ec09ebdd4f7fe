import TableExport.Proofs.Table.Columns
import TableExport.Proofs.Table.Header

/-!
# The ranges of labels

The labels under a label lie in blocks of columns, one beside the other and within the columns of
the label they hang under (`Layout.SpansAll`). This holds of the layout of every header that can be
scanned.

The invariant of the scan speaks of the stack of open labels (`HeaderScan.Stacked`): what already
hangs under a label lies before the label that is open below it, and a label that does not reach
into the column that is scanned has a label still to come in this column that closes it.

* `Layout.ofSheet_congr`: the layout depends on the texts of the header only.
* `HeaderScan.foldlM_induction`: induction over the positions of a header.
* `HeaderScan.Ready.step`: the invariant holds from one position to the next.
* `Layout.spansAll_ofSheet`: the labels of a layout lie in blocks.
-/

namespace TableExport

/-! ## The texts of a header -/

namespace HeaderScan

variable {sheet other : Sheet} {row column : Nat}

theorem endBefore_congr (h : ∀ column, other.text row column = sheet.text row column)
    (last column count : Nat) :
    endBefore other row last column count = endBefore sheet row last column count := by
  induction count generalizing column with
  | zero => rfl
  | succ count ih => simp only [endBefore, h, ih]

theorem step_congr (headerRows : Nat) (scan : HeaderScan)
    (h : ∀ column, other.text row column = sheet.text row column) :
    step other headerRows scan (row, column) = step sheet headerRows scan (row, column) := by
  simp only [step, labelAt, h, endBefore_congr h]

end HeaderScan

/-- The layout of a sheet depends on the texts of the header rows only. -/
theorem Layout.ofSheet_congr {sheet other : Sheet} {headerRows : Nat}
    (hcolumns : other.maxColumn = sheet.maxColumn)
    (h : ∀ row column, 1 ≤ row → row ≤ headerRows →
      other.text row column = sheet.text row column) :
    Layout.ofSheet other headerRows = Layout.ofSheet sheet headerRows := by
  have hfold : ∀ (positions : List (Nat × Nat)) (scan : HeaderScan),
      (∀ position ∈ positions, 1 ≤ position.1 ∧ position.1 ≤ headerRows) →
      positions.foldlM (HeaderScan.step other headerRows) scan =
        positions.foldlM (HeaderScan.step sheet headerRows) scan := by
    intro positions
    induction positions with
    | nil => exact fun _ _ => rfl
    | cons position rest ih =>
      intro scan hpositions
      obtain ⟨row, column⟩ := position
      obtain ⟨hpos, hle⟩ := hpositions _ List.mem_cons_self
      rw [List.foldlM_cons, List.foldlM_cons,
        HeaderScan.step_congr headerRows scan fun column => h row column hpos hle]
      exact congrArg _ (funext fun scan => ih scan fun position hp =>
        hpositions position (List.mem_cons_of_mem _ hp))
  rw [Layout.ofSheet, Layout.ofSheet, hcolumns, hfold]
  exact fun position hp => (Authored.mem_headerPositions.1 hp).1

/-! ## Blocks of columns -/

namespace Layout

mutual

/-- A label and the labels below it lie before a column that the label reaches up to. -/
inductive Spans : Nat → Layout → Prop
  | mk {stop : Nat} {layout : Layout} : layout.first < stop → stop ≤ layout.last + 1 →
    SpansAll layout.first stop layout.members → Spans stop layout

/-- Labels and the labels below them lie in blocks beside each other, from a first column on and
before another one. -/
inductive SpansAll : Nat → Nat → List Layout → Prop
  | nil {start stop : Nat} : start ≤ stop → SpansAll start stop []
  | cons {start middle stop : Nat} {label : Layout} {rest : List Layout} : start ≤ label.first →
    Spans middle label → SpansAll middle stop rest → SpansAll start stop (label :: rest)

end

variable {start middle stop : Nat} {label : Layout} {labels : List Layout}

theorem SpansAll.le (h : SpansAll start stop labels) : start ≤ stop := by
  induction labels generalizing start with
  | nil =>
    cases h with
    | nil hle => exact hle
  | cons label rest ih =>
    cases h with
    | cons hstart hlabel hrest =>
      obtain ⟨hfirst, -, -⟩ := hlabel
      exact (hstart.trans hfirst.le).trans (ih hrest)

theorem SpansAll.mono (h : SpansAll start middle labels) (hle : middle ≤ stop) :
    SpansAll start stop labels := by
  induction labels generalizing start with
  | nil =>
    cases h with
    | nil hstart => exact .nil (hstart.trans hle)
  | cons label rest ih =>
    cases h with
    | cons hstart hlabel hrest => exact .cons hstart hlabel (ih hrest)

/-- A label after the others has a block of its own. -/
theorem SpansAll.concat (h : SpansAll start middle labels) (hfirst : middle ≤ label.first)
    (hlabel : Spans stop label) : SpansAll start stop (labels ++ [label]) := by
  induction labels generalizing start with
  | nil =>
    cases h with
    | nil hstart => exact .cons (hstart.trans hfirst) hlabel (.nil (le_refl stop))
  | cons other rest ih =>
    cases h with
    | cons hstart hother hrest => exact .cons hstart hother (ih hrest)

/-- Each of some labels has a block. -/
theorem SpansAll.exists_of_mem (h : SpansAll start stop labels) (hmem : label ∈ labels) :
    start ≤ label.first ∧ ∃ middle ≤ stop, Spans middle label := by
  induction labels generalizing start with
  | nil => cases hmem
  | cons other rest ih =>
    cases h with
    | cons hstart hother hrest =>
      rcases List.mem_cons.1 hmem with rfl | hmem
      · exact ⟨hstart, _, hrest.le, hother⟩
      · obtain ⟨hle, hspans⟩ := ih hrest hmem
        obtain ⟨hfirst, -, -⟩ := hother
        exact ⟨(hstart.trans hfirst.le).trans hle, hspans⟩

/-- Of labels in blocks, one only has a column in its block. -/
theorem SpansAll.eq_of_column {other : Layout} {column : Nat} (h : SpansAll start stop labels)
    (hmem : label ∈ labels) (hmem' : other ∈ labels)
    (hlabel : ∀ stop, Spans stop label → label.first ≤ column ∧ column < stop)
    (hother : ∀ stop, Spans stop other → other.first ≤ column ∧ column < stop) :
    label = other := by
  induction labels generalizing start with
  | nil => cases hmem
  | cons first rest ih =>
    cases h with
    | cons hstart hfirst hrest =>
      have hafter : ∀ {inner}, inner ∈ rest →
          (∀ stop, Spans stop inner → inner.first ≤ column ∧ column < stop) →
          ¬ ∀ stop, Spans stop first → first.first ≤ column ∧ column < stop :=
        fun hinner hcolumn hcolumn' => by
          obtain ⟨hle, stop', -, hspans⟩ := hrest.exists_of_mem hinner
          have := (hcolumn stop' hspans).1
          have := (hcolumn' _ hfirst).2
          omega
      rcases List.mem_cons.1 hmem with rfl | hrest₁ <;>
        rcases List.mem_cons.1 hmem' with rfl | hrest₂
      · rfl
      · exact absurd hlabel (hafter hrest₂ hother)
      · exact absurd hother (hafter hrest₁ hlabel)
      · exact ih hrest hrest₁ hrest₂

end Layout

namespace HeaderScan

open Layout

/-! ## Labels to come -/

/-- A label stands at a position. -/
def HasLabel (sheet : Sheet) (row column : Nat) : Prop :=
  ∃ name, sheet.text row column = .ok name ∧ name ≠ ""

variable {sheet : Sheet} {headerRows row column depth bound last stop : Nat}

theorem not_hasLabel (h : sheet.text row column = .ok "") : ¬ HasLabel sheet row column := by
  rintro ⟨name, hlabel, hne⟩
  rw [h] at hlabel
  exact hne (Except.ok.inj hlabel).symm

/-- A label ends where the one around it does, or before the next label of its row. -/
theorem endBefore_eq_ok {count : Nat} (hpos : 0 < column) (hcount : column + count = last + 1)
    (h : endBefore sheet row last column count = .ok stop) :
    (column ≤ stop + 1 ∧ stop ≤ last) ∧ (stop < last → HasLabel sheet row (stop + 1)) ∧
      ∀ other, column ≤ other → other ≤ stop → ¬ HasLabel sheet row other := by
  induction count generalizing column with
  | zero =>
    cases h
    exact ⟨by omega, fun hlt => absurd hlt (lt_irrefl _), fun other h₁ h₂ => by omega⟩
  | succ count ih =>
    rw [endBefore] at h
    obtain ⟨name, hname, h⟩ := bind_eq_ok.1 h
    split at h
    · rename_i hempty
      obtain ⟨hrange, hlabel, hnone⟩ := ih (Nat.succ_pos column) (by omega) h
      refine ⟨by omega, hlabel, fun other h₁ h₂ => ?_⟩
      rcases h₁.eq_or_lt with rfl | hlt
      · exact not_hasLabel (by rw [hname, String.isEmpty_iff.1 hempty])
      · exact hnone other hlt h₂
    · rename_i hne
      cases h
      refine ⟨by omega, fun _ => ⟨name, ?_, by simpa using hne⟩, fun other h₁ h₂ => by omega⟩
      rw [Nat.sub_add_cancel hpos]
      exact hname

theorem labelAt_eq_ok {scan : HeaderScan} {name : String} {label : Layout}
    (h : labelAt sheet scan name row column = .ok label) : ∃ last,
      endBefore sheet row scan.top.last (column + 1) (scan.top.last - column) = .ok last ∧
        label = ⟨name, column, last, []⟩ := by
  rw [labelAt] at h
  obtain ⟨last, hlast, h⟩ := bind_eq_ok.1 h
  cases h
  exact ⟨last, hlast, rfl⟩

/-- A label hangs under the innermost open one in the final row; in another row it is opened once
the labels in its row and below are closed, whatever the transition is called. -/
theorem step_of_label {scan : HeaderScan} {name : String} (hrow : 0 < row)
    (htext : sheet.text row column = .ok name) (hname : name ≠ "") :
    step sheet headerRows scan (row, column) =
      if row = headerRows then
        ((labelAt sheet scan name row column).mapError .overflow).map scan.attach
      else if scan.size < row then .error (.headerDepth row column (scan.size - 1))
      else
        ((labelAt sheet (scan.upTo row) name row column).mapError .overflow).map
          (scan.upTo row).descend := by
  have hne : name.isEmpty = false := by simpa [String.isEmpty_iff] using hname
  have hpos := scan.size_pos
  simp only [step, htext, Except.mapError, bind, Except.bind, hne, Bool.false_eq_true, if_false,
    Transition.of?, if_neg (show ¬ (scan.size = 0 ∨ row = 0) by omega)]
  by_cases hfinal : row = headerRows
  · simp only [if_pos hfinal]
    cases labelAt sheet scan name row column <;> rfl
  · by_cases hskip : scan.size < row
    · simp only [if_neg hfinal, if_pos hskip]
      rfl
    · by_cases hdescend : row = scan.size
      · have hup : scan.upTo row = scan := hdescend ▸ scan.upTo_size
        simp only [if_neg hfinal, if_neg hskip, if_pos hdescend, hup]
        cases labelAt sheet scan name row column <;> rfl
      · by_cases hsibling : row + 1 = scan.size
        · have hup : scan.upTo row = scan.close 1 := by
            rw [upTo]
            congr 1
            omega
          simp only [if_neg hfinal, if_neg hskip, if_neg hdescend, if_pos hsibling, hup]
          cases labelAt sheet (scan.close 1) name row column <;> rfl
        · simp only [if_neg hfinal, if_neg hskip, if_neg hdescend, if_neg hsibling, upTo]
          cases labelAt sheet (scan.close (scan.size - row)) name row column <;> rfl

/-- What a position of the header does to the open labels. -/
theorem step_eq_ok {scan scan' : HeaderScan} (hrow : 0 < row)
    (h : step sheet headerRows scan (row, column) = .ok scan') :
    (sheet.text row column = .ok "" ∧ scan' = scan) ∨
    ∃ name last, sheet.text row column = .ok name ∧ name ≠ "" ∧ ((row = headerRows ∧
        endBefore sheet row scan.top.last (column + 1) (scan.top.last - column) = .ok last ∧
        scan' = scan.attach ⟨name, column, last, []⟩) ∨
      (row ≠ headerRows ∧ row ≤ scan.size ∧
        endBefore sheet row (scan.upTo row).top.last (column + 1)
          ((scan.upTo row).top.last - column) = .ok last ∧
        scan' = (scan.upTo row).descend ⟨name, column, last, []⟩)) := by
  cases htext : sheet.text row column with
  | error e =>
    simp only [step, htext, Except.mapError, bind, Except.bind] at h
    cases h
  | ok name =>
    by_cases hname : name = ""
    · subst hname
      rw [step_of_blank htext] at h
      cases h
      exact Or.inl ⟨rfl, rfl⟩
    · rw [step_of_label hrow htext hname] at h
      right
      split at h
      · rename_i hfinal
        obtain ⟨label, hlabel, rfl⟩ := map_eq_ok.1 h
        obtain ⟨last, hend, rfl⟩ := labelAt_eq_ok (mapError_eq_ok.1 hlabel)
        exact ⟨name, last, rfl, hname, Or.inl ⟨hfinal, hend, rfl⟩⟩
      · rename_i hfinal
        split at h
        · cases h
        · rename_i hskip
          obtain ⟨label, hlabel, rfl⟩ := map_eq_ok.1 h
          obtain ⟨last, hend, rfl⟩ := labelAt_eq_ok (mapError_eq_ok.1 hlabel)
          exact ⟨name, last, rfl, hname, Or.inr ⟨hfinal, Nat.le_of_not_lt hskip, hend, rfl⟩⟩

/-! ## The open labels -/

/-- What is known of an open label at a depth when the rows above `row` of a column have been
scanned: what hangs under it lies before `bound`; it was opened in an earlier column or further
up; and it reaches into the column, unless a label still to come there closes it. -/
structure OpenLabel (sheet : Sheet) (row column depth bound : Nat) (label : Layout) : Prop where
  spans : SpansAll label.first bound label.members
  opened : depth = 0 ∨ label.first < column ∨ (label.first = column ∧ depth < row)
  le_last : column ≤ label.last + 1
  goes_on : column ≤ label.last ∨ ∃ r, row ≤ r ∧ r ≤ depth ∧ HasLabel sheet r column

/-- What is known of the stack of open labels. -/
inductive Stacked (sheet : Sheet) (row column : Nat) : Nat → List Layout → Prop
  | root {bound : Nat} {label : Layout} : OpenLabel sheet row column 0 bound label →
    label.first = 1 → label.last = sheet.maxColumn → Stacked sheet row column bound [label]
  | inner {bound : Nat} {label parent : Layout} {below : List Layout} :
    OpenLabel sheet row column (below.length + 1) bound label → label.last ≤ parent.last →
    (label.last < parent.last → HasLabel sheet (below.length + 1) (label.last + 1)) →
    Stacked sheet row column label.first (parent :: below) →
    Stacked sheet row column bound (label :: parent :: below)

namespace Stacked

variable {label parent : Layout} {below stack : List Layout}

theorem openLabel (h : Stacked sheet row column bound (label :: below)) :
    OpenLabel sheet row column below.length bound label := by
  cases h with
  | root hlabel => exact hlabel
  | inner hlabel => exact hlabel

/-- Other facts about the innermost open label may be put in place of those that are known. -/
theorem of_openLabel {label' : Layout} (h : Stacked sheet row column bound (label :: below))
    (hfirst : label'.first = label.first) (hlast : label'.last = label.last)
    (hlabel : OpenLabel sheet row column below.length stop label') :
    Stacked sheet row column stop (label' :: below) := by
  cases h with
  | root _ hone hmax => exact .root hlabel (hfirst.trans hone) (hlast.trans hmax)
  | inner _ hle hend hbelow => exact .inner hlabel (hlast ▸ hle) (hlast ▸ hend) (hfirst ▸ hbelow)

/-- A label that hangs under the innermost open one has a block after what hangs there already. -/
theorem attach (h : Stacked sheet row column bound (parent :: below)) (hfirst : bound ≤ label.first)
    (hspans : Spans stop label) :
    Stacked sheet row column stop
      ({ parent with members := parent.members ++ [label] } :: below) :=
  h.of_openLabel rfl rfl ⟨h.openLabel.spans.concat hfirst hspans, h.openLabel.opened,
    h.openLabel.le_last, h.openLabel.goes_on⟩

/-- Open labels that end before a bound and reach up to it are closed. -/
theorem close {scan : HeaderScan} {low high levels : Nat}
    (h : Stacked sheet row column bound (scan.top :: scan.below)) (hlow : 0 < low)
    (hhigh : scan.size ≤ high) (hlevels : low + levels ≤ scan.size)
    (hclose : ∀ {depth stop : Nat} {label : Layout}, low ≤ depth → depth < high →
      OpenLabel sheet row column depth stop label → label.first < bound ∧ bound ≤ label.last + 1) :
    Stacked sheet row column bound ((scan.close levels).top :: (scan.close levels).below) := by
  induction levels generalizing scan with
  | zero => rwa [close_zero]
  | succ levels ih =>
    obtain ⟨top, below⟩ := scan
    cases h with
    | root =>
      simp only [size, List.length_nil] at hlevels
      omega
    | @inner _ _ parent below hlabel hle hend hbelow =>
      simp only [size, List.length_cons] at hhigh hlevels
      obtain ⟨hfirst, hlast⟩ := hclose (by omega) (by omega) hlabel
      refine @ih (HeaderScan.attach ⟨parent, below⟩ top) ?_ ?_ ?_
      · exact hbelow.attach (le_refl _) ⟨hfirst, hlast, hlabel.spans⟩
      · simp only [size, HeaderScan.attach]
        omega
      · simp only [size, HeaderScan.attach]
        omega

end Stacked

/-! ## One position -/

theorem OpenLabel.le_of_lt {label : Layout} (h : OpenLabel sheet row column depth bound label)
    (hdepth : depth < row) : column ≤ label.last := by
  rcases h.goes_on with hle | ⟨r, h₁, h₂, -⟩
  · exact hle
  · omega

theorem OpenLabel.next {label : Layout} (h : OpenLabel sheet row column depth bound label)
    (hnone : ¬ HasLabel sheet row column ∨ depth < row) :
    OpenLabel sheet (row + 1) column depth bound label where
  spans := h.spans
  opened := by
    have := h.opened
    omega
  le_last := h.le_last
  goes_on := by
    refine h.goes_on.imp_right ?_
    rintro ⟨r, h₁, h₂, hlabel⟩
    refine ⟨r, ?_, h₂, hlabel⟩
    rcases h₁.eq_or_lt with rfl | hlt
    · rcases hnone with hnone | hdepth
      · exact absurd hlabel hnone
      · omega
    · exact hlt

/-- A position without a label leaves the stack as it is, and so does one whose row is below all
open labels. -/
theorem Stacked.next {stack : List Layout} (h : Stacked sheet row column bound stack)
    (hnone : ¬ HasLabel sheet row column ∨ stack.length ≤ row) :
    Stacked sheet (row + 1) column bound stack := by
  induction h with
  | root hlabel hone hmax => exact .root (hlabel.next (hnone.imp_right id)) hone hmax
  | inner hlabel hle hend _ ih =>
    simp only [List.length_cons] at hnone ih
    exact .inner (hlabel.next (hnone.imp_right fun h => h)) hle hend
      (ih (hnone.imp_right fun h => by omega))

/-- Where a label that is read under an open one ends. -/
theorem OpenLabel.endBefore_eq_ok {label : Layout}
    (h : OpenLabel sheet row column depth bound label) (hdepth : depth < row)
    (hend : endBefore sheet row label.last (column + 1) (label.last - column) = .ok last) :
    (column ≤ last ∧ last ≤ label.last) ∧ (last < label.last → HasLabel sheet row (last + 1)) ∧
      ∀ other, column < other → other ≤ last → ¬ HasLabel sheet row other := by
  have hle := h.le_of_lt hdepth
  obtain ⟨hrange, hlabel, hnone⟩ :=
    HeaderScan.endBefore_eq_ok (Nat.succ_pos column) (by omega) hend
  exact ⟨by omega, hlabel, hnone⟩

section Step

variable {scan scan' : HeaderScan}

/-- The labels in the row of a position or below it were opened in an earlier column, and are
closed. -/
theorem Stacked.upTo (hrow : 0 < row) (hle : row ≤ scan.size)
    (h : Stacked sheet row column column (scan.top :: scan.below)) :
    Stacked sheet row column column ((scan.upTo row).top :: (scan.upTo row).below) := by
  refine h.close hrow (le_refl _) (by omega) fun hlow _ hlabel => ⟨?_, hlabel.le_last⟩
  have := hlabel.opened
  omega

/-- **A position above the final row keeps the invariant.** -/
theorem Stacked.step (hrow : 0 < row) (hlt : row < headerRows) (hsize : scan.size ≤ headerRows)
    (h : Stacked sheet row column column (scan.top :: scan.below))
    (hstep : HeaderScan.step sheet headerRows scan (row, column) = .ok scan') :
    Stacked sheet (row + 1) column column (scan'.top :: scan'.below) ∧
      scan'.size ≤ headerRows := by
  rcases step_eq_ok hrow hstep with
    ⟨hblank, rfl⟩ | ⟨name, last, -, -, hfinal | ⟨-, hle, hend, rfl⟩⟩
  · exact ⟨h.next (Or.inl (not_hasLabel hblank)), hsize⟩
  · exact absurd hfinal.1 hlt.ne
  · have hup := h.upTo hrow hle
    have hdepth := size_upTo hrow hle
    simp only [size] at hdepth
    obtain ⟨hrange, hlabel, -⟩ := hup.openLabel.endBefore_eq_ok (by omega) hend
    refine ⟨.inner ⟨.nil (le_refl column), ?_, Nat.le_succ_of_le hrange.1, Or.inl hrange.1⟩
      hrange.2 ?_ (hup.next (Or.inr (by simp only [List.length_cons]; omega))), ?_⟩
    · exact Or.inr (Or.inr ⟨rfl, by omega⟩)
    · rw [hdepth]
      exact hlabel
    · simp only [size, HeaderScan.descend, List.length_cons]
      omega

/-- **The final row of a column keeps the invariant**, and leaves nothing to come in the column. -/
theorem Stacked.step_final (hrow : 0 < headerRows) (hsize : scan.size ≤ headerRows)
    (h : Stacked sheet headerRows column column (scan.top :: scan.below))
    (hstep : HeaderScan.step sheet headerRows scan (headerRows, column) = .ok scan') :
    Stacked sheet (headerRows + 1) column (column + 1) (scan'.top :: scan'.below) ∧
      scan'.size ≤ headerRows := by
  have hdepth : scan.below.length < headerRows := hsize
  rcases step_eq_ok hrow hstep with
    ⟨hblank, rfl⟩ | ⟨name, last, -, -, ⟨-, hend, rfl⟩ | ⟨hne, -⟩⟩
  · have hnext := h.next (Or.inl (not_hasLabel hblank))
    have hopen := hnext.openLabel
    exact ⟨hnext.of_openLabel rfl rfl ⟨hopen.spans.mono (Nat.le_succ column), hopen.opened,
      hopen.le_last, hopen.goes_on⟩, hsize⟩
  · obtain ⟨hrange, -⟩ := h.openLabel.endBefore_eq_ok hdepth hend
    have hspans : Spans (column + 1) ⟨name, column, last, []⟩ :=
      ⟨Nat.lt_succ_self column, by simp only; omega, .nil (Nat.le_succ column)⟩
    exact ⟨(h.next (Or.inr hdepth)).attach (le_refl column) hspans, hsize⟩
  · exact absurd rfl hne

/-- The labels that are open after a column reach into the next one, or have a label to come
there. -/
theorem Stacked.nextColumn {stack : List Layout} (h : Stacked sheet row column bound stack)
    (hdepth : stack.length ≤ row) (hcolumn : column < sheet.maxColumn) :
    Stacked sheet 1 (column + 1) bound stack := by
  induction h with
  | root hlabel hone hmax =>
    exact .root ⟨hlabel.spans, Or.inl rfl, by omega, Or.inl (by omega)⟩ hone hmax
  | @inner _ label parent below hlabel hle hend _ ih =>
    simp only [List.length_cons] at hdepth ih
    have hparent := ih (by omega)
    have hlast := hlabel.le_of_lt (by omega)
    refine .inner ⟨hlabel.spans, ?_, by omega, ?_⟩ hle hend hparent
    · have := hlabel.opened
      omega
    · by_cases hreach : column + 1 ≤ label.last
      · exact Or.inl hreach
      · right
        have heq : label.last = column := by omega
        rcases hle.lt_or_eq with hlt | hlast'
        · exact ⟨below.length + 1, by omega, le_refl _, heq ▸ hend hlt⟩
        · rcases hparent.openLabel.goes_on with hparent | ⟨r, h₁, h₂, hr⟩
          · omega
          · exact ⟨r, h₁, by omega, hr⟩

end Step

/-! ## The whole header -/

/-- The positions of one more column come last. -/
theorem headerPositions_succ (columns rows : Nat) :
    Layout.headerPositions (columns + 1) rows = Layout.headerPositions columns rows ++
      (List.range' 1 rows).map fun row => (row, columns + 1) := by
  have hcolumns : List.range' 1 (columns + 1) = List.range' 1 columns ++ [1 + columns] :=
    List.range'_1_concat
  rw [Layout.headerPositions, hcolumns, List.flatMap_append, List.flatMap_singleton,
    Nat.add_comm 1 columns]
  rfl

/-- **Induction over the positions of a header.** `P column row` is what holds in a column before
the position in a row, and after the final position when the row is the one below it. -/
theorem foldlM_induction {ε σ : Type} {f : σ → Nat × Nat → Except ε σ} {columns rows : Nat}
    {P : Nat → Nat → σ → Prop} {state state' : σ} (hstart : P 0 (rows + 1) state)
    (hnext : ∀ column < columns, ∀ state, P column (rows + 1) state → P (column + 1) 1 state)
    (hstep : ∀ column row state state', column < columns → row < rows →
      P (column + 1) (row + 1) state → f state (row + 1, column + 1) = .ok state' →
      P (column + 1) (row + 2) state')
    (h : (Layout.headerPositions columns rows).foldlM f state = .ok state') :
    P columns (rows + 1) state' := by
  induction columns generalizing state' with
  | zero =>
    cases h
    exact hstart
  | succ columns ih =>
    rw [headerPositions_succ, List.foldlM_append] at h
    obtain ⟨middle, hmiddle, h⟩ := bind_eq_ok.1 h
    have hfirst := hnext columns (Nat.lt_succ_self _) middle
      (ih (fun column hlt => hnext column (Nat.lt_succ_of_lt hlt))
        (fun column row state state' hlt =>
          hstep column row state state' (Nat.lt_succ_of_lt hlt)) hmiddle)
    have hrows : ∀ count ≤ rows, ∀ state', ((List.range' 1 count).map fun row =>
        (row, columns + 1)).foldlM f middle = .ok state' → P (columns + 1) (count + 1) state' := by
      intro count
      induction count with
      | zero =>
        intro _ state' h
        cases h
        exact hfirst
      | succ count ihcount =>
        intro hcount state' h
        rw [List.range'_1_concat, List.map_append, List.foldlM_append] at h
        obtain ⟨before, hbefore, h⟩ := bind_eq_ok.1 h
        rw [List.map_singleton, List.foldlM_cons] at h
        obtain ⟨after, hafter, h⟩ := bind_eq_ok.1 h
        cases h
        rw [Nat.add_comm 1 count] at hafter
        exact hstep columns count before _ (Nat.lt_succ_self _) hcount
          (ihcount (by omega) before hbefore) hafter
    exact hrows rows (le_refl _) state' h

/-- What is known of a scan before a position of a column, or after the final one: the labels that
hang already lie before the column, or in it. -/
structure Ready (sheet : Sheet) (headerRows row column : Nat) (scan : HeaderScan) : Prop where
  stacked : Stacked sheet row column (if row ≤ headerRows then column else column + 1)
    (scan.top :: scan.below)
  size_le : scan.size ≤ headerRows

namespace Ready

variable {root : Layout} {scan scan' : HeaderScan}

theorem start (hpos : 0 < headerRows) (hroot : root.first = 1) (hlast : root.last = sheet.maxColumn)
    (hmembers : root.members = []) : Ready sheet headerRows (headerRows + 1) 0 ⟨root, []⟩ := by
  refine ⟨.root ⟨?_, Or.inl rfl, Nat.zero_le _, Or.inl (Nat.zero_le _)⟩ hroot hlast, hpos⟩
  rw [hroot, hmembers, if_neg (by omega)]
  exact .nil (le_refl 1)

theorem next (hpos : 0 < headerRows) (hcolumn : column < sheet.maxColumn)
    (h : Ready sheet headerRows (headerRows + 1) column scan) :
    Ready sheet headerRows 1 (column + 1) scan := by
  have hstacked := h.stacked
  have hsize := h.size_le
  rw [if_neg (by omega)] at hstacked
  refine ⟨?_, h.size_le⟩
  rw [if_pos (by omega)]
  exact hstacked.nextColumn (by simp only [size] at hsize; simp only [List.length_cons]; omega)
    hcolumn

theorem before (h : Ready sheet headerRows row column scan) (hle : row ≤ headerRows) :
    Stacked sheet row column column (scan.top :: scan.below) := by
  have hstacked := h.stacked
  rwa [if_pos hle] at hstacked

theorem step (hrow : 0 < row) (hle : row ≤ headerRows) (h : Ready sheet headerRows row column scan)
    (hstep : HeaderScan.step sheet headerRows scan (row, column) = .ok scan') :
    Ready sheet headerRows (row + 1) column scan' := by
  rcases hle.eq_or_lt with rfl | hlt
  · obtain ⟨hstacked, hsize⟩ := (h.before (le_refl _)).step_final hrow h.size_le hstep
    exact ⟨by rwa [if_neg (by omega)], hsize⟩
  · obtain ⟨hstacked, hsize⟩ := (h.before hle).step hrow hlt h.size_le hstep
    exact ⟨by rwa [if_pos (by omega)], hsize⟩

end Ready

/-- The root is left open in the end, and nothing else. -/
theorem below_close (scan : HeaderScan) : (scan.close scan.below.length).below = [] := by
  have hclosed : (scan.close scan.below.length).size = scan.size - scan.below.length :=
    size_close (Nat.lt_succ_self _)
  simp only [size] at hclosed
  exact List.eq_nil_of_length_eq_zero (by omega)

end HeaderScan

/-- **The labels of a layout lie in blocks of columns**, level by level. -/
theorem Layout.spansAll_ofSheet {sheet : Sheet} {headerRows : Nat} {layout : Layout}
    (h : Layout.ofSheet sheet headerRows = .ok layout) :
    SpansAll layout.first (layout.last + 1) layout.members := by
  rw [Layout.ofSheet] at h
  obtain ⟨scan, hscan, h⟩ := bind_eq_ok.1 h
  cases h
  cases headerRows with
  | zero =>
    have hnone : Layout.headerPositions sheet.maxColumn 0 = [] := by
      simp [Layout.headerPositions]
    rw [hnone] at hscan
    cases hscan
    exact .nil (Nat.succ_le_succ (Nat.zero_le _))
  | succ headerRows =>
    have hpos : 0 < headerRows + 1 := Nat.succ_pos headerRows
    have hready : HeaderScan.Ready sheet (headerRows + 1) (headerRows + 2) sheet.maxColumn scan :=
      HeaderScan.foldlM_induction
        (P := fun column row => HeaderScan.Ready sheet (headerRows + 1) row column)
        (HeaderScan.Ready.start hpos rfl rfl rfl)
        (fun column hlt _ => HeaderScan.Ready.next hpos hlt)
        (fun column row _ _ _ hlt => HeaderScan.Ready.step (Nat.succ_pos row) hlt) hscan
    have hsize := hready.size_le
    have hstacked := hready.stacked
    rw [if_neg (by omega)] at hstacked
    have hroot : HeaderScan.Stacked sheet (headerRows + 2) sheet.maxColumn (sheet.maxColumn + 1)
        ((scan.close scan.below.length).top :: (scan.close scan.below.length).below) :=
      hstacked.close Nat.one_pos hsize (by simp only [HeaderScan.size]; omega)
        fun hlow hhigh hlabel => by
          have := hlabel.opened
          have := hlabel.le_of_lt (by omega)
          omega
    rw [HeaderScan.below_close] at hroot
    cases hroot with
    | root hlabel hone hmax =>
      rw [HeaderScan.root, hmax]
      exact hlabel.spans

/-! ## The columns below a label -/

namespace Extraction

open Layout

variable {type inner : TypeTree} {layout label : Layout} {stop : Nat}

/-- What is found below a layout lies in a block of its columns. -/
theorem Reaches.spansAll (h : Reaches type layout inner label)
    (hspans : SpansAll layout.first stop layout.members) (hstop : stop ≤ layout.last + 1) :
    ∃ stop', SpansAll label.first stop' label.members ∧ layout.first ≤ label.first ∧
      stop' ≤ stop ∧ stop' ≤ label.last + 1 := by
  induction h generalizing stop with
  | refl => exact ⟨stop, hspans, le_refl _, le_refl _, hstop⟩
  | step hmatched _ ih =>
    obtain ⟨hfirst, middle, hmiddle, -, hlast, hbelow⟩ := hspans.exists_of_mem hmatched.mem
    obtain ⟨stop', hspans', hfirst', hle, hlast'⟩ := ih hbelow hlast
    exact ⟨stop', hspans', hfirst.trans hfirst', hle.trans hmiddle, hlast'⟩

/-- The columns of the fields below a layout are columns of the layout. -/
theorem FieldColumn.mem_range {column : Nat} (h : FieldColumn type layout column)
    (hspans : SpansAll layout.first stop layout.members) (hstop : stop ≤ layout.last + 1) :
    layout.first ≤ column ∧ column < stop := by
  obtain ⟨outer, around, label, member, hreach, hmatched, rfl⟩ := h
  obtain ⟨stop', haround, hfirst, hle, -⟩ := hreach.spansAll hspans hstop
  obtain ⟨hstart, middle, hmiddle, hlt, -, -⟩ := haround.exists_of_mem hmatched.mem
  omega

end Extraction

end TableExport
