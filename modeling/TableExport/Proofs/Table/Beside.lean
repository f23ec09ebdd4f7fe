import TableExport.Proofs.Table.Levels

/-!
# Labels beside each other

Under one label, the labels of the row below it end before one another. So do labels of the final
row, but under a label that lies higher up they stand beside labels of the row below it, and a label
of the final row is only ended by the next one of its row. Two labels under one label overlap
exactly if the left one is of the final row, and no label of the final row comes after it up to the
column of the right one (`Layout.disjoint_ofSheet`).

The labels of the final row come first: once a label of the row below is open, they hang under it
or deeper (`Layout.Pairing.row_eq_of_beside`).
-/

namespace TableExport

/-! ## The labels of a header in their order -/

namespace Sheet

variable {sheet : Sheet} {positions : List (Nat × Nat)} {labels : List HeaderLabel}
  {label : HeaderLabel}

/-- The labels at some positions are the texts there that are not empty. -/
theorem mem_labelsAt (h : sheet.labelsAt positions = .ok labels) :
    label ∈ labels ↔ (label.row, label.column) ∈ positions ∧
      sheet.text label.row label.column = .ok label.name ∧ label.name ≠ "" := by
  induction positions generalizing labels with
  | nil =>
    cases h
    simp
  | cons position positions ih =>
    obtain ⟨name, rest, htext, hrest, rfl⟩ := labelsAt_cons_eq_ok h
    rw [List.mem_append, ih hrest, List.mem_cons, or_and_right]
    refine or_congr_left ⟨fun hlabel => ?_, ?_⟩
    · split_ifs at hlabel with hname
      · cases hlabel
      · cases List.mem_singleton.1 hlabel
        exact ⟨rfl, htext, by simpa [String.isEmpty_iff] using hname⟩
    · rintro ⟨rfl, htext', hne⟩
      cases htext.symm.trans htext'
      rw [if_neg (by simpa [String.isEmpty_iff] using hne)]
      exact List.mem_singleton.2 rfl

/-- Labels come in the order of their positions. -/
theorem pairwise_labelsAt (hpositions : positions.Pairwise Authored.Before)
    (h : sheet.labelsAt positions = .ok labels) :
    labels.Pairwise fun label next =>
      Authored.Before (label.row, label.column) (next.row, next.column) := by
  induction positions generalizing labels with
  | nil =>
    cases h
    exact .nil
  | cons position positions ih =>
    obtain ⟨hfirst, hpositions⟩ := List.pairwise_cons.1 hpositions
    obtain ⟨name, rest, htext, hrest, rfl⟩ := labelsAt_cons_eq_ok h
    refine List.pairwise_append.2 ⟨?_, ih hpositions hrest, fun label hlabel next hnext => ?_⟩
    · split_ifs
      exacts [.nil, List.pairwise_singleton _ _]
    · split_ifs at hlabel with hname
      · cases hlabel
      · cases List.mem_singleton.1 hlabel
        exact hfirst _ ((mem_labelsAt hrest).1 hnext).1

end Sheet

namespace Layout

open HeaderScan

/-! ## The labels of a layout in their order -/

theorem nodesAll_append (around : List Layout) (labels others : List Layout) :
    nodesAll around (labels ++ others) = nodesAll around labels ++ nodesAll around others := by
  induction labels with
  | nil => rw [nodesAll, List.nil_append, List.nil_append]
  | cons label rest ih => rw [List.cons_append, nodesAll, nodesAll, ih, List.append_assoc]

/-- The labels beside each other, with what is around them, come in their order. -/
theorem sublist_nodesAll (around : List Layout) (labels : List Layout) :
    (labels.map (⟨·, around⟩ : Layout → Node)).Sublist (nodesAll around labels) := by
  induction labels with
  | nil => exact List.nil_sublist _
  | cons label rest ih =>
    rw [List.map_cons, nodesAll, nodes_eq, List.cons_append]
    exact (ih.trans (List.sublist_append_right _ _)).cons_cons _

/-- The labels below a node come in their order in the listing. -/
theorem sublist_nodesAll_of_mem {layout : Layout} {around : List Layout} {node : Node}
    (h : node ∈ nodes around layout) :
    (nodesAll node.path node.label.members).Sublist
      (nodesAll (layout :: around) layout.members) := by
  induction layout using Layout.induction generalizing around with
  | step layout ih =>
    rw [nodes_eq] at h
    rcases List.mem_cons.1 h with rfl | h
    · exact List.Sublist.refl _
    · obtain ⟨label, hlabel, h⟩ := mem_nodesAll.1 h
      refine (ih label hlabel h).trans ?_
      obtain ⟨before, after, heq⟩ := List.append_of_mem hlabel
      rw [heq, nodesAll_append, nodesAll, nodes_eq, List.cons_append]
      exact (List.sublist_append_left _ _).trans
        ((List.sublist_cons_self _ _).trans (List.sublist_append_right _ _))

/-- Each label but the first one is one of the labels below the innermost label around it. -/
theorem mem_members_of_mem_nodes {layout : Layout} {around : List Layout} {node : Node}
    (h : node ∈ nodes around layout) : node = ⟨layout, around⟩ ∨
      ∃ parent outer, node.around = parent :: outer ∧ node.label ∈ parent.members := by
  induction layout using Layout.induction generalizing around with
  | step layout ih =>
    rw [nodes_eq] at h
    refine (List.mem_cons.1 h).imp_right fun h => ?_
    obtain ⟨label, hlabel, h⟩ := mem_nodesAll.1 h
    rcases ih label hlabel h with rfl | hparent
    · exact ⟨layout, around, rfl, hlabel⟩
    · exact hparent

/-- The labels of a header with the nodes that show them. -/
structure Pairing (sheet : Sheet) (headerRows : Nat) (layout : Layout)
    (pairs : List (HeaderLabel × Node)) : Prop where
  listing_eq : pairs.map Prod.snd = layout.listing
  shows : EachAfter (fun before pair => Shows sheet headerRows layout before pair.1 pair.2) pairs
  first_eq : ∀ pair ∈ pairs, pair.2.label.first = pair.1.column
  mem_header : ∀ pair ∈ pairs,
    (pair.1.row, pair.1.column) ∈ headerPositions sheet.maxColumn headerRows
  hasLabel : ∀ pair ∈ pairs, HasLabel sheet pair.1.row pair.1.column
  ordered : pairs.Pairwise fun pair next =>
    Authored.Before (pair.1.row, pair.1.column) (next.1.row, next.1.column)
  complete : ∀ row column, (row, column) ∈ headerPositions sheet.maxColumn headerRows →
    HasLabel sheet row column → ∃ pair ∈ pairs, pair.1.row = row ∧ pair.1.column = column

theorem exists_pairing {sheet : Sheet} {headerRows : Nat} {layout : Layout}
    (h : Layout.ofSheet sheet headerRows = .ok layout) :
    ∃ pairs, Pairing sheet headerRows layout pairs := by
  obtain ⟨hfirst, hlast, charts, opened, hlabels, hcharted, hentries⟩ := charted_ofSheet h
  have hmirrors := mirrors_of_charted hfirst hlast (spansAll_ofSheet h) hcharted hentries
  generalize charts.map Prod.fst = labels at hlabels hmirrors
  have hlength : layout.listing.length = labels.length := by
    simpa using congrArg List.length hmirrors.listing_eq
  have hfst : (labels.zip layout.listing).map Prod.fst = labels := List.map_fst_zip hlength.ge
  have hsnd : (labels.zip layout.listing).map Prod.snd = layout.listing :=
    List.map_snd_zip hlength.le
  have hmem : ∀ pair ∈ labels.zip layout.listing, pair.1 ∈ labels := fun pair hpair =>
    (List.of_mem_zip hpair).1
  have hlabel := fun label => @Sheet.mem_labelsAt _ _ _ label hlabels
  refine ⟨labels.zip layout.listing, hsnd, fun before pair after heq =>
    hmirrors.shows before pair.1 pair.2 after heq, ?_, fun pair hpair => ?_, fun pair hpair => ?_,
    ?_, ?_⟩
  · have hfirsts : layout.listing.map (·.label.first) = labels.map HeaderLabel.column := by
      simpa [Function.comp_def] using congrArg (List.map Prod.snd) hmirrors.listing_eq
    have hcolumns : (labels.zip layout.listing).map (fun pair => pair.2.label.first) =
        (labels.zip layout.listing).map (fun pair => pair.1.column) :=
      calc (labels.zip layout.listing).map (fun pair => pair.2.label.first)
          = ((labels.zip layout.listing).map Prod.snd).map (·.label.first) := by
            rw [List.map_map]
            rfl
        _ = ((labels.zip layout.listing).map Prod.fst).map HeaderLabel.column := by
          rw [hsnd, hfst, hfirsts]
        _ = (labels.zip layout.listing).map (fun pair => pair.1.column) := by
          rw [List.map_map]
          rfl
    exact fun pair hpair => List.map_inj_left.1 hcolumns pair hpair
  · exact ((hlabel _).1 (hmem pair hpair)).1
  · exact ⟨_, ((hlabel _).1 (hmem pair hpair)).2⟩
  · have hordered := Sheet.pairwise_labelsAt (Authored.pairwise_headerPositions _ _) hlabels
    rw [← hfst, List.pairwise_map] at hordered
    exact hordered
  · rintro row column hposition ⟨name, htext, hname⟩
    have hfound : (⟨row, column, name⟩ : HeaderLabel) ∈ labels :=
      (hlabel _).2 ⟨hposition, htext, hname⟩
    rw [← hfst] at hfound
    obtain ⟨pair, hpair, heq⟩ := List.mem_map.1 hfound
    exact ⟨pair, hpair, by rw [heq], by rw [heq]⟩

namespace Pairing

variable {sheet : Sheet} {headerRows : Nat} {layout : Layout}
  {pairs before after : List (HeaderLabel × Node)} {pair next : HeaderLabel × Node}

theorem row_le (h : Pairing sheet headerRows layout pairs) (hpair : pair ∈ pairs) :
    pair.1.row ≤ headerRows :=
  (Authored.mem_headerPositions.1 (h.mem_header pair hpair)).1.2

/-- The innermost label above the final row before a position is one that is met before, or comes
after it. -/
theorem exists_nearest (root : Layout)
    (hordered : before.Pairwise fun pair next =>
      Authored.Before (pair.1.row, pair.1.column) (next.1.row, next.1.column))
    (hpair : pair ∈ before) (hrow : pair.1.row < headerRows) :
    ∃ last ∈ before, last.1.row < headerRows ∧ nearest headerRows root before = last.2.path ∧
      (last = pair ∨
        Authored.Before (pair.1.row, pair.1.column) (last.1.row, last.1.column)) := by
  induction before using List.reverseRecOn with
  | nil => cases hpair
  | append_singleton before item ih =>
    obtain ⟨hbefore, -, hitem⟩ := List.pairwise_append.1 hordered
    rw [nearest_concat]
    split_ifs with habove
    · refine ⟨item, by simp, habove, rfl, ?_⟩
      rcases List.mem_append.1 hpair with hpair | hpair
      · exact Or.inr (hitem pair hpair item List.mem_cons_self)
      · exact Or.inl (List.mem_singleton.1 hpair).symm
    · rcases List.mem_append.1 hpair with hpair | hpair
      · obtain ⟨last, hlast, hrest⟩ := ih hbefore hpair
        exact ⟨last, List.mem_append_left _ hlast, hrest⟩
      · cases List.mem_singleton.1 hpair
        exact absurd hrow habove

/-- **The labels of the final row come first** among the labels under one label. -/
theorem row_eq_of_beside (h : Pairing sheet headerRows layout pairs)
    (heq : pairs = before ++ next :: after) (hpair : pair ∈ before)
    (hbeside : pair.2.around = next.2.around) (hrow : pair.1.row < headerRows) :
    next.1.row < headerRows := by
  by_contra hfinal
  have hnext : next ∈ pairs := heq ▸ List.mem_append_right _ List.mem_cons_self
  have hmem : ∀ {item}, item ∈ before → item ∈ pairs := fun hitem =>
    heq ▸ List.mem_append_left _ hitem
  have hordered := h.ordered
  rw [heq] at hordered
  obtain ⟨last, hlast, habove, hnearest, hafter⟩ := exists_nearest layout
    (List.pairwise_append.1 hordered).1 hpair hrow
  have haround : pair.2.around = last.2.path := by
    rw [hbeside, ← hnearest]
    exact (h.shows before next after heq).around_eq (by have := h.row_le hnext; omega)
  have hdepth : pair.2.depth = last.2.depth + 1 := congrArg List.length haround
  obtain ⟨before', after', hsplit⟩ := List.append_of_mem (hmem hpair)
  have hshows := h.shows before' pair after' hsplit
  obtain ⟨before'', after'', hsplit'⟩ := List.append_of_mem (hmem hlast)
  have hshows' := h.shows before'' last after'' hsplit'
  rw [hshows.depth_eq hrow, hshows'.depth_eq habove] at hdepth
  -- the label around both would be read after the left one, but starts before it
  obtain ⟨parent, hparent, hfirst, -⟩ := hshows.range
  rw [haround] at hparent
  cases hparent
  rw [h.first_eq last (hmem hlast), h.first_eq pair (hmem hpair)] at hfirst
  rcases hafter with rfl | hafter
  · omega
  · simp only [Authored.Before] at hafter
    omega

/-- A label with a label of the final row in its column is followed by one in a lower row. -/
theorem exists_next_lower (h : Pairing sheet headerRows layout pairs) (hpair : pair ∈ pairs)
    (hrow : pair.1.row < headerRows) (hlabel : HasLabel sheet headerRows pair.1.column) :
    ∃ before next after, pairs = before ++ pair :: next :: after ∧ pair.1.row < next.1.row := by
  obtain ⟨before, after, heq⟩ := List.append_of_mem hpair
  have hposition := Authored.mem_headerPositions.1 (h.mem_header pair hpair)
  obtain ⟨final, hfinal, hfinalRow, hfinalColumn⟩ := h.complete headerRows pair.1.column
    (Authored.mem_headerPositions.2 ⟨⟨by omega, le_rfl⟩, hposition.2⟩) hlabel
  have hordered := h.ordered
  rw [heq] at hordered
  obtain ⟨-, hordered, hbefore⟩ := List.pairwise_append.1 hordered
  obtain ⟨hafter, hordered⟩ := List.pairwise_cons.1 hordered
  have hmem : final ∈ after := by
    rw [heq] at hfinal
    rcases List.mem_append.1 hfinal with hfinal | hfinal
    · have := hbefore final hfinal pair List.mem_cons_self
      simp only [Authored.Before] at this
      omega
    · rcases List.mem_cons.1 hfinal with rfl | hfinal
      · omega
      · exact hfinal
  obtain ⟨next, after, rfl⟩ := List.exists_cons_of_ne_nil (List.ne_nil_of_mem hmem)
  have hbetween : next = final ∨
      Authored.Before (next.1.row, next.1.column) (final.1.row, final.1.column) :=
    (List.mem_cons.1 hmem).imp Eq.symm ((List.pairwise_cons.1 hordered).1 final)
  have hnext := hafter next List.mem_cons_self
  refine ⟨before, next, after, heq, ?_⟩
  rcases hbetween with rfl | hbetween
  · omega
  · simp only [Authored.Before] at hbetween hnext
    omega

/-- Above the final row, a label with a label of the final row in its column has labels below it. -/
theorem members_ne_nil (h : Pairing sheet headerRows layout pairs) (hpair : pair ∈ pairs)
    (hrow : pair.1.row < headerRows) (hlabel : HasLabel sheet headerRows pair.1.column) :
    pair.2.label.members ≠ [] := by
  obtain ⟨before, next, after, heq, hlower⟩ := h.exists_next_lower hpair hrow hlabel
  -- the next label lies below this one in its column, and can only hang under it
  have hnextMem : next ∈ pairs := heq ▸ by simp
  have hsplit : pairs = (before ++ [pair]) ++ next :: after := by simp [heq]
  have hshows := h.shows _ next after hsplit
  have haround : next.2.around = pair.2.path := by
    rcases (h.row_le hnextMem).eq_or_lt with hnextRow | hnextRow
    · rw [hshows.around_eq hnextRow, nearest_concat, if_pos hrow]
    · have hchain := (isChain_nodes layout []).1
      rw [nodes_eq, ← listing, ← h.listing_eq, heq, List.map_append, ← List.cons_append,
        List.map_cons, List.map_cons] at hchain
      have hfollows := (List.isChain_cons_cons.1 (List.isChain_append.1 hchain).2.1).1
      refine hfollows.suffix.eq_of_length_le ?_
      rw [Node.length_path, (h.shows before pair _ heq).depth_eq hrow]
      exact hlower.trans_eq (hshows.depth_eq hnextRow).symm
  have hlisted : next.2 ∈ nodes [] layout := by
    rw [nodes_eq, ← listing, ← h.listing_eq]
    exact List.mem_cons_of_mem _ (List.mem_map_of_mem hnextMem)
  rcases mem_members_of_mem_nodes hlisted with heq | ⟨parent, outer, hparent, hmember⟩
  · rw [heq] at haround
    cases haround
  · rw [haround] at hparent
    cases hparent
    exact List.ne_nil_of_mem hmember

end Pairing

/-! ## Labels that overlap -/

/-- A label ends before a column inside the label around it exactly if a label of its row comes
after it up to that column. -/
theorem EndsAt.last_lt_iff {sheet : Sheet} {label : HeaderLabel} {stop last column : Nat}
    (h : EndsAt sheet label stop last) (hstop : column ≤ stop) :
    last < column ↔
      ∃ other, label.column < other ∧ other ≤ column ∧ HasLabel sheet label.row other := by
  by_cases hnone : ∀ other, label.column < other → other ≤ stop → ¬ HasLabel sheet label.row other
  · have hlast := h.at_stop hnone
    refine ⟨fun hlt => by omega, ?_⟩
    rintro ⟨other, hother, hle, hlabel⟩
    exact absurd hlabel (hnone other hother (hle.trans hstop))
  · push Not at hnone
    obtain ⟨bound, hbound, hle, hlabel⟩ := hnone
    classical
    have hexists : ∃ other, label.column < other ∧ HasLabel sheet label.row other :=
      ⟨bound, hbound, hlabel⟩
    obtain ⟨hfound, hfoundLabel⟩ := Nat.find_spec hexists
    have hlast := h.before_next (Nat.find hexists)
      ⟨⟨hfound, hfoundLabel⟩, fun other hother => Nat.find_min' hexists hother⟩
      ((Nat.find_min' hexists ⟨hbound, hlabel⟩).trans hle)
    constructor
    · intro hlt
      exact ⟨Nat.find hexists, hfound, by omega, hfoundLabel⟩
    · rintro ⟨other, hother, hle, hlabel⟩
      have := Nat.find_min' hexists ⟨hother, hlabel⟩
      omega

/-- A label of the final row reaches into the columns of a label beside it: no label of the final
row comes after it up to the first of those columns. -/
def Overruns (sheet : Sheet) (headerRows : Nat) (label next : Layout) : Prop :=
  label.members = [] ∧ HasLabel sheet headerRows label.first ∧
    ∀ column, label.first < column → column ≤ next.first → ¬ HasLabel sheet headerRows column

/-- Two labels under one label are apart unless the left one overruns the right one. -/
theorem Pairing.disjoint_of_beside {sheet : Sheet} {headerRows : Nat} {layout : Layout}
    {pairs before after : List (HeaderLabel × Node)} {pair next : HeaderLabel × Node}
    (h : Pairing sheet headerRows layout pairs) (heq : pairs = before ++ next :: after)
    (hpair : pair ∈ before) (hbeside : pair.2.around = next.2.around) :
    pair.2.label.last < next.2.label.first ↔
      ¬ Overruns sheet headerRows pair.2.label next.2.label := by
  have hmem : pair ∈ pairs := heq ▸ List.mem_append_left _ hpair
  have hnext : next ∈ pairs := heq ▸ List.mem_append_right _ List.mem_cons_self
  obtain ⟨before', after', hsplit⟩ := List.append_of_mem hmem
  have hshows := h.shows before' pair after' hsplit
  have hshows' := h.shows before next after heq
  have hfirst := h.first_eq pair hmem
  have hfirst' := h.first_eq next hnext
  have hordered := h.ordered
  rw [heq] at hordered
  have hbefore := (List.pairwise_append.1 hordered).2.2 pair hpair next List.mem_cons_self
  simp only [Authored.Before] at hbefore
  obtain ⟨parent, hparent, -, -, -, hends⟩ := hshows.range
  obtain ⟨_, hparent', -, hle, hlast, -⟩ := hshows'.range
  rw [← hbeside, hparent] at hparent'
  cases hparent'
  rcases (h.row_le hmem).eq_or_lt with hrow | hrow
  · rw [hends.last_lt_iff (hle.trans hlast), Overruns, hfirst, hrow]
    have hlabel := h.hasLabel pair hmem
    rw [hrow] at hlabel
    simp only [hshows.childless hrow, hlabel, true_and]
    push Not
    exact Iff.rfl
  · have hrow' := h.row_eq_of_beside heq hpair hbeside hrow
    have hsame : pair.1.row = next.1.row := by
      rw [← hshows.depth_eq hrow, ← hshows'.depth_eq hrow', Node.depth, Node.depth, hbeside]
    have hlabel := h.hasLabel next hnext
    rw [← hsame, ← hfirst'] at hlabel
    refine iff_of_true ?_ fun hoverruns => ?_
    · exact (hends.last_lt_iff (hle.trans hlast)).2 ⟨_, by omega, le_rfl, hlabel⟩
    · exact h.members_ne_nil hmem hrow (hfirst ▸ hoverruns.2.1) hoverruns.1

/-- **Labels under one label start from left to right, and overlap only where a label of the final
row overruns the next ones.** -/
theorem disjoint_ofSheet {sheet : Sheet} {headerRows : Nat} {layout : Layout}
    (h : Layout.ofSheet sheet headerRows = .ok layout) {node : Node}
    (hnode : node ∈ nodes [] layout) :
    node.label.members.Pairwise fun label next => label.first < next.first ∧
      (label.last < next.first ↔ ¬ Overruns sheet headerRows label next) := by
  obtain ⟨stop, hspans⟩ := spansAll_of_mem_nodes (spansAll_ofSheet h) hnode
  refine (List.pairwise_map.1 hspans.pairwise_first).and ?_
  obtain ⟨pairs, hpairs⟩ := exists_pairing h
  rw [List.pairwise_iff_forall_sublist]
  intro label next hsublist
  have hlisted : [(⟨label, node.path⟩ : Node), ⟨next, node.path⟩].Sublist layout.listing :=
    (hsublist.map _).trans ((sublist_nodesAll _ _).trans (sublist_nodesAll_of_mem hnode))
  rw [← hpairs.listing_eq] at hlisted
  obtain ⟨chosen, hchosen, heq⟩ := List.sublist_map_iff.1 hlisted
  obtain ⟨pair, rest, rfl, hpair, hrest⟩ := List.map_eq_cons_iff.1 heq.symm
  obtain ⟨other, rfl, hother⟩ := List.map_eq_singleton_iff.1 hrest
  obtain ⟨before, after, heq, hmem, hafter⟩ := List.cons_sublist_iff.1 hchosen
  obtain ⟨between, after, rfl⟩ := List.append_of_mem (List.singleton_sublist.1 hafter)
  rw [← List.append_assoc] at heq
  have hdisjoint := hpairs.disjoint_of_beside heq (List.mem_append_left _ hmem)
    (by rw [hpair, hother])
  rwa [hpair, hother] at hdisjoint

end Layout

/-! ## Examples -/

namespace Stock

/-- A header of three rows: under `item`, the label `code` of the final row stands beside `size`,
and the next label of the final row is in column C. -/
def besideHeader : List Cell :=
  [cell 1 1 "item", cell 3 1 "code", cell 2 2 "size", cell 3 3 "width"]

/-- The layout of that header. -/
def besideLayout : Layout :=
  ⟨TypeTree.rootName, 1, 3,
    [⟨"item", 1, 3, [⟨"code", 1, 2, []⟩, ⟨"size", 2, 3, [label "width" 3]⟩]⟩]⟩

theorem ofSheet_besideHeader :
    Layout.ofSheet (Sheet.ofCells "stock.xlsx" "Stock" besideHeader) 3 = .ok besideLayout := by cbv

/-- Under `item`, the label `code` overruns `size`. -/
theorem overruns_code : ∃ item ∈ Layout.nodes [] besideLayout, item.label.name = "item" ∧
    item.label.members.Pairwise fun label next => label.first < next.first ∧
      (label.last < next.first ↔
        ¬ Layout.Overruns (Sheet.ofCells "stock.xlsx" "Stock" besideHeader) 3 label next) :=
  have hitem : (⟨⟨"item", 1, 3, [⟨"code", 1, 2, []⟩, ⟨"size", 2, 3, [label "width" 3]⟩]⟩,
      [besideLayout]⟩ : Layout.Node) ∈ Layout.nodes [] besideLayout :=
    List.mem_cons_of_mem _ List.mem_cons_self
  ⟨_, hitem, rfl, Layout.disjoint_ofSheet ofSheet_besideHeader hitem⟩

/-- **Two labels under one label can share a column.** -/
theorem not_disjoint_besideLayout :
    Layout.ofSheet (Sheet.ofCells "stock.xlsx" "Stock" besideHeader) 3 = .ok besideLayout ∧
    ¬ ∀ node ∈ Layout.nodes [] besideLayout,
      node.label.members.Pairwise fun label next => label.last < next.first := by
  refine ⟨ofSheet_besideHeader, fun h => ?_⟩
  have hitem := h ⟨⟨"item", 1, 3, [⟨"code", 1, 2, []⟩, ⟨"size", 2, 3, [label "width" 3]⟩]⟩,
    [besideLayout]⟩ (List.mem_cons_of_mem _ List.mem_cons_self)
  exact absurd ((List.pairwise_cons.1 hitem).1 _ List.mem_cons_self) (by decide)

end Stock

end TableExport
