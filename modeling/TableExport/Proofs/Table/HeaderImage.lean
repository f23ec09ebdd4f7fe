import TableExport.Proofs.Table.Preorder

/-!
# The layout as an image of the header

The labels of a header, column by column and each column from the top down, are the labels of its
layout in pre-order, and where a label stands says where it hangs and which columns it has
(`Layout.mirrors_ofSheet`).

A scan adds one heading for each label, inside the headings that are open at that time. `Charted`
says how labels and headings belong together, without the labels that hang already; each position of
the header keeps it (`Tracks.step`). Once all labels are hung, the order of the listing tells which
labels are around a node (`charted_nodes`).
-/

namespace TableExport

/-! ## The labels of a header -/

/-- A text of the header with its position. -/
structure HeaderLabel where
  row : Nat
  column : Nat
  name : String

namespace Sheet

/-- The text of a position, which may be empty. -/
def labelAt (sheet : Sheet) (position : Nat × Nat) : Except DayOverflow HeaderLabel := do
  return ⟨position.1, position.2, ← sheet.text position.1 position.2⟩

/-- The texts of some positions that are not empty, in their order. -/
def labelsAt (sheet : Sheet) (positions : List (Nat × Nat)) :
    Except DayOverflow (List HeaderLabel) := do
  return (← positions.mapM sheet.labelAt).filter fun label => !label.name.isEmpty

/-- The labels of the header, column by column and each column from the top down. -/
def headerLabels (sheet : Sheet) (headerRows : Nat) : Except DayOverflow (List HeaderLabel) :=
  sheet.labelsAt (Layout.headerPositions sheet.maxColumn headerRows)

variable {sheet : Sheet} {position : Nat × Nat} {positions : List (Nat × Nat)}
  {labels : List HeaderLabel} {row column : Nat} {name : String}

theorem labelsAt_concat (h : sheet.labelsAt positions = .ok labels)
    (htext : sheet.text row column = .ok name) :
    sheet.labelsAt (positions ++ [(row, column)]) =
      .ok (labels ++ if name.isEmpty then [] else [⟨row, column, name⟩]) := by
  obtain ⟨texts, htexts, h⟩ := bind_eq_ok.1 h
  cases h
  have hlast : sheet.labelAt (row, column) = .ok ⟨row, column, name⟩ := by
    rw [labelAt, htext]
    rfl
  simp only [labelsAt, List.mapM_append, List.mapM_cons, List.mapM_nil, htexts, hlast, bind,
    Except.bind, pure, Except.pure, List.filter_append, List.filter_cons, List.filter_nil]
  cases name.isEmpty <;> rfl

/-- The texts of some positions are the text of the first one and those of the others. -/
theorem labelsAt_cons_eq_ok (h : sheet.labelsAt (position :: positions) = .ok labels) :
    ∃ name rest, sheet.text position.1 position.2 = .ok name ∧
      sheet.labelsAt positions = .ok rest ∧
      labels = (if name.isEmpty then [] else [⟨position.1, position.2, name⟩]) ++ rest := by
  obtain ⟨texts, htexts, h⟩ := bind_eq_ok.1 h
  cases h
  rw [List.mapM_cons] at htexts
  obtain ⟨first, hfirst, htexts⟩ := bind_eq_ok.1 htexts
  obtain ⟨others, hothers, htexts⟩ := bind_eq_ok.1 htexts
  cases htexts
  obtain ⟨name, hname, hfirst⟩ := bind_eq_ok.1 hfirst
  cases hfirst
  refine ⟨name, _, hname, bind_eq_ok.2 ⟨others, hothers, rfl⟩, ?_⟩
  rw [List.filter_cons]
  cases name.isEmpty <;> rfl

end Sheet

namespace Layout

/-! ## What a node shows -/

/-- Where a label ends inside the columns up to `stop`: just before the next label of its row when
that stands there, and at `stop` otherwise. -/
structure EndsAt (sheet : Sheet) (label : HeaderLabel) (stop last : Nat) : Prop where
  before_next : ∀ next, IsLeast {column | label.column < column ∧
    HeaderScan.HasLabel sheet label.row column} next → next ≤ stop → last + 1 = next
  at_stop : (∀ column, label.column < column → column ≤ stop →
    ¬ HeaderScan.HasLabel sheet label.row column) → last = stop

/-- The label above the final row that is nearest before a position, with the labels around it; the
root if there is none. -/
def nearest (headerRows : Nat) (root : Layout) (before : List (HeaderLabel × Node)) :
    List Layout :=
  ((before.reverse.find? fun pair => pair.1.row < headerRows).map fun pair => pair.2.path).getD
    [root]

/-- What a node has to do with the label that it shows, where `before` are the labels before it with
their nodes. -/
structure Shows (sheet : Sheet) (headerRows : Nat) (root : Layout)
    (before : List (HeaderLabel × Node)) (label : HeaderLabel) (node : Node) : Prop where
  depth_eq : label.row < headerRows → node.depth = label.row
  childless : label.row = headerRows → node.label.members = []
  around_eq : label.row = headerRows → node.around = nearest headerRows root before
  range : ∃ parent, node.around.head? = some parent ∧ parent.first ≤ node.label.first ∧
    node.label.first ≤ node.label.last ∧ node.label.last ≤ parent.last ∧
    EndsAt sheet label parent.last node.label.last

theorem nearest_concat (headerRows : Nat) (root : Layout) (before : List (HeaderLabel × Node))
    (pair : HeaderLabel × Node) :
    nearest headerRows root (before ++ [pair]) =
      if pair.1.row < headerRows then pair.2.path else nearest headerRows root before := by
  rw [nearest, List.reverse_append, List.reverse_singleton, List.singleton_append, List.find?_cons]
  by_cases h : pair.1.row < headerRows
  · simp [h]
  · simp [h, nearest]

end Layout

namespace HeaderScan

open Layout

/-! ## Charts -/

/-- The columns of a label inside those of a heading. -/
structure Fits (sheet : Sheet) (label : HeaderLabel) (parent : Heading) (last : Nat) : Prop where
  first_le : parent.first ≤ label.column
  le_last : label.column ≤ last
  last_le : last ≤ parent.last
  next : last < parent.last → HasLabel sheet label.row (last + 1)
  blank : ∀ column, label.column < column → column ≤ last → ¬ HasLabel sheet label.row column

/-- How headings belong to labels, and which of them are open in the end: a label of the final row
is put inside those that are open, and another one closes those in its row and below and is
opened. -/
inductive Charted (sheet : Sheet) (headerRows : Nat) (root : Heading) :
    List (HeaderLabel × Entry) → List Heading → Prop
  | nil : Charted sheet headerRows root [] [root]
  | final {charts : List (HeaderLabel × Entry)} {label : HeaderLabel} {parent : Heading}
      {around : List Heading} {last : Nat} :
    Charted sheet headerRows root charts (parent :: around) → label.row = headerRows →
    Fits sheet label parent last →
    Charted sheet headerRows root
      (charts ++ [(label, ⟨⟨label.name, label.column, last⟩, parent :: around⟩)])
      (parent :: around)
  | above {charts : List (HeaderLabel × Entry)} {opened : List Heading} {label : HeaderLabel}
      {parent : Heading} {around : List Heading} {last : Nat} :
    Charted sheet headerRows root charts opened → label.row < headerRows →
    parent :: around <:+ opened → around.length + 1 = label.row → Fits sheet label parent last →
    Charted sheet headerRows root
      (charts ++ [(label, ⟨⟨label.name, label.column, last⟩, parent :: around⟩)])
      (⟨label.name, label.column, last⟩ :: parent :: around)

/-- A scan has met the labels at some positions and nothing else. -/
def Tracks (sheet : Sheet) (headerRows : Nat) (root : Heading) (positions : List (Nat × Nat))
    (scan : HeaderScan) : Prop :=
  ∃ charts, sheet.labelsAt positions = .ok (charts.map Prod.fst) ∧
    scan.outline = ⟨root, []⟩ :: charts.map Prod.snd ∧
    Charted sheet headerRows root charts scan.headings

variable {sheet : Sheet} {headerRows row column bound last : Nat} {root : Heading}
  {positions : List (Nat × Nat)} {scan scan' : HeaderScan} {name : String}

/-- A label that is read under the innermost open one fits into its columns. -/
theorem Stacked.fits (h : Stacked sheet row column column (scan.top :: scan.below))
    (hdepth : scan.below.length < row)
    (hend : endBefore sheet row scan.top.last (column + 1) (scan.top.last - column) = .ok last) :
    Fits sheet ⟨row, column, name⟩ scan.top.heading last := by
  obtain ⟨⟨hle, hlast⟩, hnext, hblank⟩ := h.openLabel.endBefore_eq_ok hdepth hend
  exact ⟨h.openLabel.spans.le, hle, hlast, hnext, hblank⟩

/-- **A position of the header adds its label and nothing else.** -/
theorem Tracks.step (hrow : 0 < row) (hle : row ≤ headerRows)
    (hready : Ready sheet headerRows row column scan)
    (h : Tracks sheet headerRows root positions scan)
    (hstep : HeaderScan.step sheet headerRows scan (row, column) = .ok scan') :
    Tracks sheet headerRows root (positions ++ [(row, column)]) scan' := by
  obtain ⟨charts, hlabels, houtline, hcharted⟩ := h
  have hstacked := hready.before hle
  rcases step_eq_ok hrow hstep with
    ⟨hblank, rfl⟩ | ⟨name, last, htext, hname, ⟨hfinal, hend, rfl⟩ | ⟨hne, hsize, hend, rfl⟩⟩
  · refine ⟨charts, ?_, houtline, hcharted⟩
    rw [Sheet.labelsAt_concat hlabels hblank]
    simp
  · have hfits : Fits sheet ⟨row, column, name⟩ scan.top.heading last :=
      hstacked.fits (hfinal ▸ hready.size_le) hend
    refine ⟨_, ?_, ?_, Charted.final hcharted hfinal hfits⟩
    · rw [Sheet.labelsAt_concat hlabels htext]
      simp [String.isEmpty_iff, hname]
    · rw [outline_attach, outline_of_leaf _ rfl, houtline, List.map_append]
      rfl
  · have hdepth := size_upTo hrow hsize
    have hfits : Fits sheet ⟨row, column, name⟩ (scan.upTo row).top.heading last := by
      refine (hstacked.upTo hrow hsize).fits ?_ hend
      simp only [size] at hdepth
      omega
    refine ⟨_, ?_, ?_, Charted.above hcharted (lt_of_le_of_ne hle hne)
      (headings_close _ scan) ?_ hfits⟩
    · rw [Sheet.labelsAt_concat hlabels htext]
      simp [String.isEmpty_iff, hname]
    · rw [outline_descend, outline_of_leaf _ rfl, upTo, outline_close, houtline, List.map_append]
      rfl
    · rw [List.length_map]
      exact hdepth

/-- The positions of the header before the one in a row of a column. -/
def visited (headerRows : Nat) : Nat → Nat → List (Nat × Nat)
  | 0, _ => []
  | column + 1, row => headerPositions column headerRows ++
    (List.range' 1 (row - 1)).map fun row => (row, column + 1)

theorem visited_last (headerRows column : Nat) :
    visited headerRows column (headerRows + 1) = headerPositions column headerRows := by
  cases column with
  | zero => rfl
  | succ column =>
    rw [visited, headerPositions_succ]
    rfl

theorem visited_first (headerRows column : Nat) :
    visited headerRows (column + 1) 1 = visited headerRows column (headerRows + 1) := by
  rw [visited_last, visited]
  simp

theorem visited_succ (headerRows column row : Nat) :
    visited headerRows (column + 1) (row + 2) =
      visited headerRows (column + 1) (row + 1) ++ [(row + 1, column + 1)] := by
  rw [visited, visited, List.append_assoc]
  congr 1
  change (List.range' 1 (row + 1)).map _ = _
  rw [List.range'_1_concat, List.map_append, Nat.add_comm 1 row]
  rfl

/-- **A whole scan has met the labels of the header and nothing else.** -/
theorem tracks_headerPositions {label : Layout} (hfirst : label.first = 1)
    (hlast : label.last = sheet.maxColumn) (hmembers : label.members = [])
    (h : (headerPositions sheet.maxColumn headerRows).foldlM (HeaderScan.step sheet headerRows)
      ⟨label, []⟩ = .ok scan) :
    Tracks sheet headerRows label.heading (headerPositions sheet.maxColumn headerRows) scan := by
  have hstart : Tracks sheet headerRows label.heading [] ⟨label, []⟩ := by
    refine ⟨[], rfl, ?_, Charted.nil⟩
    exact outline_of_leaf [] hmembers
  rcases Nat.eq_zero_or_pos headerRows with rfl | hpos
  · have hnone : headerPositions sheet.maxColumn 0 = [] := by simp [headerPositions]
    rw [hnone] at h ⊢
    cases h
    exact hstart
  · have hboth : Ready sheet headerRows (headerRows + 1) sheet.maxColumn scan ∧
        Tracks sheet headerRows label.heading
          (visited headerRows sheet.maxColumn (headerRows + 1)) scan := by
      refine foldlM_induction (P := fun column row scan =>
        Ready sheet headerRows row column scan ∧
          Tracks sheet headerRows label.heading (visited headerRows column row) scan)
        ⟨Ready.start hpos hfirst hlast hmembers, hstart⟩ ?_ ?_ h
      · rintro column hlt scan ⟨hready, htracks⟩
        rw [visited_first]
        exact ⟨hready.next hpos hlt, htracks⟩
      · rintro column row scan scan' - hlt ⟨hready, htracks⟩ hstep
        rw [visited_succ]
        exact ⟨hready.step row.succ_pos hlt hstep, htracks.step row.succ_pos hlt hready hstep⟩
    rw [← visited_last]
    exact hboth.2

/-! ## Nodes of charts -/

/-- Each item of a list has a property together with the items before it. -/
def EachAfter {α : Type} (P : List α → α → Prop) (items : List α) : Prop :=
  ∀ before item after, items = before ++ item :: after → P before item

theorem EachAfter.concat {α : Type} {P : List α → α → Prop} {items : List α} {item : α}
    (h : EachAfter P items) (hitem : P items item) : EachAfter P (items ++ [item]) := by
  intro before other after heq
  rcases List.eq_nil_or_concat after with rfl | ⟨rest, last, rfl⟩
  · obtain ⟨rfl, hlast⟩ := List.append_inj' heq rfl
    cases hlast
    exact hitem
  · rw [List.concat_eq_append, ← List.cons_append, ← List.append_assoc] at heq
    exact h before other rest (List.append_inj_left' heq rfl)

/-- The label of a pair with the headings of its node. -/
def chart (pair : HeaderLabel × Node) : HeaderLabel × Entry := (pair.1, pair.2.entry)

variable {charts : List (HeaderLabel × Entry)} {opened : List Heading}

/-- A heading has the name and the column of its label, which fits into the heading around it; above
the final row its depth is the row. -/
theorem Charted.of_mem (h : Charted sheet headerRows root charts opened)
    {pair : HeaderLabel × Entry} (hpair : pair ∈ charts) :
    (pair.2.heading.name = pair.1.name ∧ pair.2.heading.first = pair.1.column) ∧
      (pair.1.row < headerRows → pair.2.around.length = pair.1.row) ∧
      ∃ parent around, pair.2.around = parent :: around ∧
        Fits sheet pair.1 parent pair.2.heading.last := by
  induction h with
  | nil => cases hpair
  | final _ hrow hfits ih =>
    rcases List.mem_append.1 hpair with hpair | hpair
    · exact ih hpair
    · rw [List.mem_singleton.1 hpair]
      exact ⟨⟨rfl, rfl⟩, fun hlt => absurd hrow hlt.ne, _, _, rfl, hfits⟩
  | above _ _ _ hlength hfits ih =>
    rcases List.mem_append.1 hpair with hpair | hpair
    · exact ih hpair
    · rw [List.mem_singleton.1 hpair]
      exact ⟨⟨rfl, rfl⟩, fun _ => hlength, _, _, rfl, hfits⟩

/-- After a label of the final row no deeper one comes next. -/
theorem Charted.isChain (h : Charted sheet headerRows root charts opened) :
    charts.IsChain (fun pair next => pair.1.row = headerRows →
      next.2.around.length ≤ pair.2.around.length) ∧
    ∀ pair ∈ charts.getLast?, pair.1.row = headerRows → pair.2.around = opened := by
  induction h with
  | nil => exact ⟨List.IsChain.nil, fun pair hpair => by cases hpair⟩
  | final _ _ _ ih =>
    obtain ⟨hchain, hlast⟩ := ih
    refine ⟨List.isChain_append.2 ⟨hchain, List.isChain_singleton _, ?_⟩, ?_⟩
    · intro pair hpair next hnext hrow
      cases hnext
      rw [hlast pair hpair hrow]
    · intro pair hpair _
      rw [List.getLast?_concat] at hpair
      cases hpair
      rfl
  | above _ hrow hsuffix _ _ ih =>
    obtain ⟨hchain, hlast⟩ := ih
    refine ⟨List.isChain_append.2 ⟨hchain, List.isChain_singleton _, ?_⟩, ?_⟩
    · intro pair hpair next hnext hfinal
      cases hnext
      rw [hlast pair hpair hfinal]
      exact hsuffix.length_le
    · intro pair hpair hfinal
      rw [List.getLast?_concat] at hpair
      cases hpair
      exact absurd hfinal hrow.ne

/-- **A label of the final row hangs under the nearest label above that row before it.** -/
theorem charted_nodes {layout : Layout} (h : Charted sheet headerRows layout.heading charts opened)
    {pairs : List (HeaderLabel × Node)} (hcharts : pairs.map chart = charts)
    (hchain : (⟨layout, []⟩ :: pairs.map Prod.snd).IsChain Follows) :
    EachAfter (fun before pair => pair.1.row = headerRows →
      pair.2.around = nearest headerRows layout before) pairs ∧
    (nearest headerRows layout pairs).map heading = opened ∧
    ∀ last ∈ (⟨layout, []⟩ :: pairs.map Prod.snd).getLast?,
      nearest headerRows layout pairs <:+ last.path := by
  induction h generalizing pairs with
  | nil =>
    obtain rfl := List.map_eq_nil_iff.1 hcharts
    refine ⟨fun before pair after heq => by simp at heq, rfl, fun last hlast => ?_⟩
    cases hlast
    exact List.suffix_refl _
  | @final charts label parent around last _ hrow _ ih =>
    obtain ⟨pairs, rest, rfl, hpairs, hrest⟩ := List.map_eq_append_iff.1 hcharts
    obtain ⟨pair, rfl, hpair⟩ := List.map_eq_singleton_iff.1 hrest
    obtain ⟨hlabel, hentry⟩ := Prod.mk.inj hpair
    rw [List.map_append, ← List.cons_append] at hchain
    obtain ⟨hbefore, -, hnext⟩ := List.isChain_append.1 hchain
    obtain ⟨heach, hopened, hnearest⟩ := ih hpairs hbefore
    have hfinal : pair.1.row = headerRows := hlabel ▸ hrow
    -- both are innermost parts of one path, and they are equally long
    have haround : pair.2.around = nearest headerRows layout pairs := by
      have hlast := List.getLast?_eq_some_getLast
        (List.cons_ne_nil (⟨layout, []⟩ : Node) (pairs.map Prod.snd))
      have hlength : pair.2.around.length = (nearest headerRows layout pairs).length := by
        have hentries : pair.2.around.map heading = parent :: around := congrArg Entry.around hentry
        rw [← List.length_map (f := heading), hentries, ← hopened, List.length_map]
      exact (List.suffix_of_suffix_length_le (hnext _ hlast _ rfl).suffix
        (hnearest _ hlast) hlength.le).eq_of_length hlength
    have hsame : nearest headerRows layout (pairs ++ [pair]) = nearest headerRows layout pairs := by
      rw [nearest_concat, if_neg (by omega)]
    refine ⟨heach.concat fun _ => haround, hsame ▸ hopened, fun last hlast => ?_⟩
    rw [List.map_append, ← List.cons_append, List.map_singleton, List.getLast?_concat] at hlast
    cases hlast
    rw [hsame, ← haround]
    exact List.suffix_cons _ _
  | @above charts opened label parent around last _ hrow _ _ _ ih =>
    obtain ⟨pairs, rest, rfl, hpairs, hrest⟩ := List.map_eq_append_iff.1 hcharts
    obtain ⟨pair, rfl, hpair⟩ := List.map_eq_singleton_iff.1 hrest
    obtain ⟨hlabel, hentry⟩ := Prod.mk.inj hpair
    rw [List.map_append, ← List.cons_append] at hchain
    obtain ⟨heach, -, -⟩ := ih hpairs (List.isChain_append.1 hchain).1
    have habove : pair.1.row < headerRows := hlabel ▸ hrow
    have hsame : nearest headerRows layout (pairs ++ [pair]) = pair.2.path := by
      rw [nearest_concat, if_pos habove]
    refine ⟨heach.concat fun hfinal => absurd hfinal habove.ne, ?_, fun last hlast => ?_⟩
    · rw [hsame]
      exact congrArg (fun entry : Entry => entry.heading :: entry.around) hentry
    · rw [List.map_append, ← List.cons_append, List.map_singleton, List.getLast?_concat] at hlast
      cases hlast
      rw [hsame]

/-- A label ends just before the next label of its row, or where the one around it does. -/
theorem Fits.endsAt {label : HeaderLabel} {parent : Heading}
    (h : Fits sheet label parent last) : EndsAt sheet label parent.last last where
  before_next := by
    rintro next ⟨⟨hafter, hlabel⟩, hleast⟩ hstop
    have hlt : last < next := by
      by_contra hle
      exact h.blank next hafter (Nat.le_of_not_lt hle) hlabel
    have hnext := h.next (hlt.trans_le hstop)
    have hle := h.le_last
    have := hleast ⟨by omega, hnext⟩
    omega
  at_stop := by
    intro hnone
    have hle := h.le_last
    rcases h.last_le.eq_or_lt with heq | hlt
    · exact heq
    · exact absurd (h.next hlt) (hnone (last + 1) (by omega) hlt)

end HeaderScan

namespace Layout

variable {sheet : Sheet} {headerRows : Nat} {layout : Layout} {labels : List HeaderLabel}

/-- A layout shows the labels of a header: its pre-order listing has their names and their columns
in their order, and each node hangs where its label says and has the columns that its label says.
The labels under a label start further and further to the right. -/
structure Mirrors (sheet : Sheet) (headerRows : Nat) (labels : List HeaderLabel)
    (layout : Layout) : Prop where
  first_eq : layout.first = 1
  last_eq : layout.last = sheet.maxColumn
  listing_eq : layout.listing.map (fun node => (node.label.name, node.label.first)) =
    labels.map fun label => (label.name, label.column)
  shows : ∀ before label node after, labels.zip layout.listing = before ++ (label, node) :: after →
    Shows sheet headerRows layout before label node
  increasing : ∀ node ∈ nodes [] layout, (node.label.members.map Layout.first).Pairwise (· < ·)

section Charted

open HeaderScan

variable {charts : List (HeaderLabel × Entry)} {opened : List Heading}
  {pairs before after : List (HeaderLabel × Node)} {label : HeaderLabel} {node : Node}

/-- A label of the final row has nothing below it. -/
theorem members_of_charted (hcharted : Charted sheet headerRows layout.heading charts opened)
    (hpairs : pairs.map chart = charts) (hlisting : pairs.map Prod.snd = layout.listing)
    (heq : pairs = before ++ (label, node) :: after) (hrow : label.row = headerRows) :
    node.label.members = [] := by
  obtain ⟨hchain, hend⟩ := isChain_nodes layout []
  have hcharts := hcharted.isChain.1
  rw [nodes_eq, ← listing, ← hlisting, heq, List.map_append, List.map_cons, ← List.cons_append]
    at hchain hend
  rw [← hpairs, heq, List.map_append, List.map_cons] at hcharts
  replace hchain := (List.isChain_append.1 hchain).2.1
  replace hcharts := (List.isChain_append.1 hcharts).2.1
  cases after with
  | nil => exact (hend node List.getLast?_concat).1
  | cons next after =>
    -- the next label would be deeper if it were below this one
    by_contra hmembers
    rw [List.map_cons] at hchain hcharts
    have haround := (List.isChain_cons_cons.1 hchain).1.below hmembers
    have hdepth := (List.isChain_cons_cons.1 hcharts).1 hrow
    simp only [chart, Node.entry, List.length_map, haround, Node.length_path, Node.depth] at hdepth
    omega

/-- A layout with the headings of a chart shows its labels. -/
theorem mirrors_of_charted (hfirst : layout.first = 1) (hlast : layout.last = sheet.maxColumn)
    (hspans : SpansAll layout.first (layout.last + 1) layout.members)
    (hcharted : Charted sheet headerRows layout.heading charts opened)
    (hentries : layout.listing.map Node.entry = charts.map Prod.snd) :
    layout.Mirrors sheet headerRows (charts.map Prod.fst) := by
  have hlength : layout.listing.length = (charts.map Prod.fst).length := by
    rw [List.length_map, ← List.length_map (f := Node.entry), hentries, List.length_map]
  have hlisting : ((charts.map Prod.fst).zip layout.listing).map Prod.snd = layout.listing :=
    List.map_snd_zip hlength.le
  have hpairs : ((charts.map Prod.fst).zip layout.listing).map chart = charts := by
    have hzip : ((charts.map Prod.fst).zip layout.listing).map chart =
        (charts.map Prod.fst).zip (layout.listing.map Node.entry) := List.zip_map_right.symm
    rw [hzip, hentries]
    exact (List.zip_of_prod rfl rfl).symm
  have hchain := (isChain_nodes layout []).1
  rw [nodes_eq, ← listing, ← hlisting] at hchain
  have heach := (charted_nodes hcharted hpairs hchain).1
  refine ⟨hfirst, hlast, ?_, fun before label node after heq => ?_, fun node hnode => ?_⟩
  · calc layout.listing.map (fun node => (node.label.name, node.label.first))
        = (charts.map Prod.snd).map fun entry => (entry.heading.name, entry.heading.first) := by
          rw [← hentries, List.map_map]
          rfl
      _ = (charts.map Prod.fst).map fun label => (label.name, label.column) := by
          rw [List.map_map, List.map_map]
          refine List.map_congr_left fun pair hpair => ?_
          obtain ⟨⟨hname, hcolumn⟩, -⟩ := hcharted.of_mem hpair
          simp only [Function.comp_apply, hname, hcolumn]
  · have hmem : chart (label, node) ∈ charts := by
      rw [← hpairs, heq]
      exact List.mem_map_of_mem (List.mem_append_right _ List.mem_cons_self)
    obtain ⟨⟨-, hcolumn⟩, hdepth, parent, around, haround, hfits⟩ := hcharted.of_mem hmem
    refine ⟨fun hrow => ?_, members_of_charted hcharted hpairs hlisting heq,
      heach before (label, node) after heq, ?_⟩
    · exact (List.length_map heading).symm.trans (hdepth hrow)
    · obtain ⟨outer, rest, houter, rfl, -⟩ := List.map_eq_cons_iff.1
        (show node.around.map heading = parent :: around from haround)
      refine ⟨outer, by rw [houter]; rfl, ?_, ?_, hfits.last_le, hfits.endsAt⟩
      · exact hfits.first_le.trans_eq hcolumn.symm
      · exact hcolumn.trans_le hfits.le_last
  · obtain ⟨stop, hbelow⟩ := spansAll_of_mem_nodes hspans hnode
    exact hbelow.pairwise_first

end Charted

/-- The layout of a header has the headings of a chart of its labels. -/
theorem charted_ofSheet (h : Layout.ofSheet sheet headerRows = .ok layout) :
    layout.first = 1 ∧ layout.last = sheet.maxColumn ∧
      ∃ charts opened, sheet.headerLabels headerRows = .ok (charts.map Prod.fst) ∧
        HeaderScan.Charted sheet headerRows layout.heading charts opened ∧
        layout.listing.map Node.entry = charts.map Prod.snd := by
  rw [ofSheet] at h
  obtain ⟨scan, hscan, h⟩ := bind_eq_ok.1 h
  cases h
  obtain ⟨charts, hlabels, houtline, hcharted⟩ :=
    HeaderScan.tracks_headerPositions rfl rfl rfl hscan
  have hentries := map_entry_nodes scan.root []
  rw [nodes_eq, List.map_nil, scan.outline_root, houtline, List.map_cons, List.cons.injEq]
    at hentries
  obtain ⟨hroot, hentries⟩ := hentries
  have hheading : scan.root.heading = heading ⟨TypeTree.rootName, 1, sheet.maxColumn, []⟩ :=
    congrArg Entry.heading hroot
  rw [← hheading] at hcharted
  exact ⟨congrArg Heading.first hheading, congrArg Heading.last hheading, charts, _, hlabels,
    hcharted, hentries⟩

/-- **The layout of a header is an image of the header.** -/
theorem mirrors_ofSheet (h : Layout.ofSheet sheet headerRows = .ok layout) :
    ∃ labels, sheet.headerLabels headerRows = .ok labels ∧
      layout.Mirrors sheet headerRows labels := by
  obtain ⟨hfirst, hlast, charts, opened, hlabels, hcharted, hentries⟩ := charted_ofSheet h
  exact ⟨_, hlabels, mirrors_of_charted hfirst hlast (spansAll_ofSheet h) hcharted hentries⟩

end Layout

/-! ## An example -/

namespace Stock

/-- A header of four rows. All labels of the first column are closed by `note`, under which a label
of the final row hangs at once. -/
def deepHeader : List Cell :=
  [cell 1 1 "item", cell 2 1 "size", cell 3 1 "outer", cell 4 1 "width", cell 4 2 "depth",
    cell 1 3 "note", cell 4 3 "text"]

/-- The layout of that header. -/
def deepLayout : Layout :=
  ⟨TypeTree.rootName, 1, 3,
    [⟨"item", 1, 2, [⟨"size", 1, 2, [⟨"outer", 1, 2, [label "width" 1, label "depth" 2]⟩]⟩]⟩,
      ⟨"note", 3, 3, [label "text" 3]⟩]⟩

theorem mirrors_deepLayout :
    Layout.ofSheet (Sheet.ofCells "stock.xlsx" "Stock" deepHeader) 4 = .ok deepLayout ∧
    ∃ labels, (Sheet.ofCells "stock.xlsx" "Stock" deepHeader).headerLabels 4 = .ok labels ∧
      deepLayout.Mirrors (Sheet.ofCells "stock.xlsx" "Stock" deepHeader) 4 labels :=
  have hlayout : Layout.ofSheet (Sheet.ofCells "stock.xlsx" "Stock" deepHeader) 4 =
      .ok deepLayout := by cbv
  ⟨hlayout, Layout.mirrors_ofSheet hlayout⟩

end Stock

end TableExport
