import TableExport.Proofs.Table.Beside

/-!
# Blocks of columns

Where all labels under the root stand in the first header row, their columns are blocks that lie
beside each other up to the last column, with nothing in the header before the first of them
(`Layout.Tiles`, `Layout.inBlocks_ofSheet`). Such blocks can be put beside each other in another
order: `Layout.placed` says where each of them starts then, and `Layout.movedColumn` where each
column goes.

* `Layout.movedColumn_of_mem`: the columns of a block keep their places in the block.
* `Layout.movedColumn_injective`: no two columns go to the same one.
* `Layout.range_eq_flatMap`: the columns up to a bound, block by block.
-/

namespace TableExport

namespace Layout

/-! ## Blocks beside each other -/

/-- The number of columns of a label. -/
def width (label : Layout) : Nat := label.last + 1 - label.first

/-- A column is one of a label's. -/
def HasColumn (label : Layout) (column : Nat) : Prop := label.first ≤ column ∧ column ≤ label.last

instance (label : Layout) (column : Nat) : Decidable (label.HasColumn column) :=
  inferInstanceAs (Decidable (_ ∧ _))

/-- The columns of labels lie beside each other without a gap, from a first column on and before
another one. -/
inductive Tiles : Nat → Nat → List Layout → Prop
  | nil {stop : Nat} : Tiles stop stop []
  | cons {start stop : Nat} {label : Layout} {rest : List Layout} : label.first = start →
    label.first ≤ label.last → Tiles (label.last + 1) stop rest → Tiles start stop (label :: rest)

/-- Labels with the columns in which they start when they are put beside each other from a column
on. -/
def placed (start : Nat) : List Layout → List (Nat × Layout)
  | [] => []
  | label :: rest => (start, label) :: placed (start + label.width) rest

/-- The column that a column goes to when the blocks of labels are put in their places. A column
that is in no block stays where it is. -/
def movedColumn (places : List (Nat × Layout)) (column : Nat) : Nat :=
  match places.find? fun place => place.2.HasColumn column with
  | some (first, label) => first + (column - label.first)
  | none => column

variable {start stop column : Nat} {label : Layout} {labels order : List Layout}
  {place other : Nat × Layout}

namespace Tiles

theorem le (h : Tiles start stop labels) : start ≤ stop := by
  induction h with
  | nil => exact le_rfl
  | cons hfirst hle _ ih => omega

theorem bounds (h : Tiles start stop labels) (hlabel : label ∈ labels) :
    start ≤ label.first ∧ label.first ≤ label.last ∧ label.last < stop := by
  induction h with
  | nil => cases hlabel
  | cons hfirst hle hrest ih =>
    rcases List.mem_cons.1 hlabel with rfl | hlabel
    · exact ⟨hfirst.ge, hle, hrest.le⟩
    · obtain ⟨hstart, hrange⟩ := ih hlabel
      exact ⟨by omega, hrange⟩

theorem exists_hasColumn (h : Tiles start stop labels) (hstart : start ≤ column)
    (hstop : column < stop) : ∃ label ∈ labels, label.HasColumn column := by
  induction h with
  | nil => omega
  | @cons _ _ label _ hfirst _ _ ih =>
    by_cases hle : column ≤ label.last
    · exact ⟨label, List.mem_cons_self, hfirst.trans_le hstart, hle⟩
    · obtain ⟨other, hother, hcolumn⟩ := ih (by omega) hstop
      exact ⟨other, List.mem_cons_of_mem _ hother, hcolumn⟩

theorem pairwise (h : Tiles start stop labels) :
    labels.Pairwise fun label next => label.last < next.first := by
  induction h with
  | nil => exact .nil
  | cons _ _ hrest ih => exact .cons (fun next hnext => (hrest.bounds hnext).1) ih

/-- No column is in two blocks. -/
theorem eq_of_hasColumn {other : Layout} (h : Tiles start stop labels) (hlabel : label ∈ labels)
    (hother : other ∈ labels) (hcolumn : label.HasColumn column)
    (hcolumn' : other.HasColumn column) : label = other := by
  have happart : labels.Pairwise fun label next =>
      label.last < next.first ∨ next.last < label.first := h.pairwise.imp Or.inl
  have : Std.Symm fun label next : Layout => label.last < next.first ∨ next.last < label.first :=
    ⟨fun _ _ h => h.symm⟩
  by_contra hne
  have := happart.forall hlabel hother hne
  simp only [HasColumn] at hcolumn hcolumn'
  omega

/-- After a block comes another one, or the end. -/
theorem exists_next (h : Tiles start stop labels) (hlabel : label ∈ labels) :
    label.last + 1 = stop ∨ ∃ next ∈ labels, next.first = label.last + 1 := by
  obtain ⟨hstart, hle, hlt⟩ := h.bounds hlabel
  rcases (Nat.succ_le_of_lt hlt).eq_or_lt with heq | hlt
  · exact Or.inl heq
  · obtain ⟨next, hnext, hcolumn⟩ := h.exists_hasColumn
      (show start ≤ label.last + 1 by omega) hlt
    simp only [HasColumn] at hcolumn
    refine Or.inr ⟨next, hnext, ?_⟩
    by_contra hne
    have hsame := h.eq_of_hasColumn hlabel hnext ⟨hle, le_rfl⟩
      (show next.HasColumn label.last from ⟨by omega, by omega⟩)
    rw [← hsame] at hcolumn
    omega

theorem nodup (h : Tiles start stop labels) : labels.Nodup := by
  refine h.pairwise.imp_of_mem ?_
  rintro label next hlabel - hlt rfl
  exact absurd hlt (Nat.not_lt.2 (h.bounds hlabel).2.1)

theorem sum_width (h : Tiles start stop labels) : start + (labels.map width).sum = stop := by
  induction h with
  | nil => rfl
  | @cons _ _ label _ hfirst hle _ ih =>
    rw [List.map_cons, List.sum_cons, width]
    omega

/-- Blocks that lie beside each other are in their places already. -/
theorem placed_eq (h : Tiles start stop labels) :
    placed start labels = labels.map fun label => (label.first, label) := by
  induction h with
  | nil => rfl
  | cons hfirst hle _ ih =>
    rw [placed, List.map_cons, ← ih, width, ← hfirst]
    congr 2
    omega

end Tiles

/-! ## Places -/

theorem map_snd_placed (start : Nat) (labels : List Layout) :
    (placed start labels).map Prod.snd = labels := by
  induction labels generalizing start with
  | nil => rfl
  | cons label rest ih => rw [placed, List.map_cons, ih]

theorem mem_of_placed (h : place ∈ placed start labels) : place.2 ∈ labels := by
  rw [← map_snd_placed start labels]
  exact List.mem_map_of_mem h

theorem exists_placed (start : Nat) (h : label ∈ labels) :
    ∃ first, (first, label) ∈ placed start labels := by
  rw [← map_snd_placed start labels] at h
  obtain ⟨⟨first, _⟩, hplace, rfl⟩ := List.mem_map.1 h
  exact ⟨first, hplace⟩

/-- What holds of labels in their places holds of the labels. -/
theorem forall₂_of_placed {α : Type} {R : Layout → α → Prop} {items : List α}
    (h : List.Forall₂ (fun place => R place.2) (placed start labels) items) :
    List.Forall₂ R labels items := by
  have hmap : List.Forall₂ R ((placed start labels).map Prod.snd) items :=
    List.forall₂_map_left_iff.2 h
  rwa [map_snd_placed] at hmap

theorem bounds_of_placed (h : place ∈ placed start labels) :
    start ≤ place.1 ∧ place.1 + place.2.width ≤ start + (labels.map width).sum := by
  induction labels generalizing start with
  | nil => cases h
  | cons label rest ih =>
    rw [List.map_cons, List.sum_cons]
    rcases List.mem_cons.1 h with rfl | h
    · exact ⟨le_rfl, by simp only; omega⟩
    · have := ih h
      omega

/-- In their places blocks lie one after the other. -/
theorem pairwise_placed (start : Nat) (labels : List Layout) :
    (placed start labels).Pairwise fun place next => place.1 + place.2.width ≤ next.1 := by
  induction labels generalizing start with
  | nil => exact .nil
  | cons label rest ih =>
    exact .cons (fun next hnext => (bounds_of_placed hnext).1) (ih _)

/-- In its place, a block is followed by another one, or it is the last one. -/
theorem exists_next_placed (h : place ∈ placed start labels) :
    place.1 + place.2.width = start + (labels.map width).sum ∨
      ∃ next ∈ placed start labels, next.1 = place.1 + place.2.width := by
  induction labels generalizing start with
  | nil => cases h
  | cons label rest ih =>
    rw [List.map_cons, List.sum_cons, ← Nat.add_assoc]
    rcases List.mem_cons.1 h with rfl | h
    · cases rest with
      | nil => exact Or.inl rfl
      | cons next rest =>
        exact Or.inr ⟨_, List.mem_cons_of_mem _ List.mem_cons_self, rfl⟩
    · rcases ih h with hend | ⟨next, hnext, heq⟩
      · exact Or.inl hend
      · exact Or.inr ⟨next, List.mem_cons_of_mem _ hnext, heq⟩

/-- The columns from a block on up to a bound that all blocks reach, block by block. The last blocks
may be cut off by the bound. -/
theorem range_eq_flatMap {bound : Nat} (h : bound ≤ start + (labels.map width).sum) :
    List.range' start (bound - start) = (placed start labels).flatMap fun place =>
      List.range' place.1 (min (place.1 + place.2.width) bound - place.1) := by
  induction labels generalizing start with
  | nil =>
    rw [List.map_nil, List.sum_nil] at h
    rw [Nat.sub_eq_zero_of_le (by omega)]
    rfl
  | cons label rest ih =>
    rw [List.map_cons, List.sum_cons] at h
    rw [placed, List.flatMap_cons, ← ih (by omega)]
    have hsplit : bound - start =
        (min (start + label.width) bound - start) + (bound - (start + label.width)) := by omega
    rw [hsplit, ← List.range'_append_1]
    by_cases hle : bound ≤ start + label.width
    · rw [Nat.sub_eq_zero_of_le hle]
      rfl
    · rw [Nat.min_eq_left (by omega), Nat.add_sub_cancel_left]

/-! ## Columns in their new places -/

section Moved

variable (htiles : Tiles start stop labels) (horder : order.Perm labels)
include htiles horder

/-- **The columns of a block keep their places in the block.** -/
theorem movedColumn_of_mem (hplace : place ∈ placed start order)
    (hcolumn : place.2.HasColumn column) :
    movedColumn (placed start order) column = place.1 + (column - place.2.first) := by
  have hsome : ((placed start order).find? fun place => place.2.HasColumn column).isSome :=
    List.find?_isSome.2 ⟨place, hplace, by simpa using hcolumn⟩
  obtain ⟨found, hfound⟩ := Option.isSome_iff_exists.1 hsome
  have hmem := List.mem_of_find?_eq_some hfound
  have hfoundColumn : found.2.HasColumn column := by simpa using List.find?_some hfound
  have hsame : found = place := by
    have hnodup : ((placed start order).map Prod.snd).Nodup := by
      rw [map_snd_placed]
      exact horder.nodup_iff.2 htiles.nodup
    refine List.inj_on_of_nodup_map hnodup hmem hplace ?_
    exact htiles.eq_of_hasColumn (horder.mem_iff.1 (mem_of_placed hmem))
      (horder.mem_iff.1 (mem_of_placed hplace)) hfoundColumn hcolumn
  subst hsame
  rw [movedColumn, hfound]

/-- The columns outside the blocks stay where they are. -/
theorem movedColumn_of_outside (hcolumn : column < start ∨ stop ≤ column) :
    movedColumn (placed start order) column = column := by
  have hnone : ((placed start order).find? fun place => place.2.HasColumn column) = none := by
    rw [List.find?_eq_none]
    intro place hplace
    have := htiles.bounds (horder.mem_iff.1 (mem_of_placed hplace))
    intro hinside
    obtain ⟨hfirst, hlast⟩ := of_decide_eq_true hinside
    omega
  rw [movedColumn, hnone]

/-- A column is in a block, whose place it goes to, or outside of all blocks. -/
theorem movedColumn_cases (column : Nat) :
    (∃ place ∈ placed start order, place.2.HasColumn column ∧
      movedColumn (placed start order) column = place.1 + (column - place.2.first)) ∨
    ((column < start ∨ stop ≤ column) ∧ movedColumn (placed start order) column = column) := by
  by_cases hcolumn : column < start ∨ stop ≤ column
  · exact Or.inr ⟨hcolumn, movedColumn_of_outside htiles horder hcolumn⟩
  · obtain ⟨label, hlabel, hlabelColumn⟩ := htiles.exists_hasColumn
      (show start ≤ column by omega) (by omega)
    obtain ⟨first, hplace⟩ := exists_placed start (horder.mem_iff.2 hlabel)
    exact Or.inl ⟨_, hplace, hlabelColumn, movedColumn_of_mem htiles horder hplace hlabelColumn⟩

/-- In their places the blocks take the columns that they took before. -/
theorem placed_le (hplace : place ∈ placed start order) :
    start ≤ place.1 ∧ place.1 + place.2.width ≤ stop := by
  have hbounds := bounds_of_placed hplace
  rwa [(horder.map width).sum_eq, htiles.sum_width] at hbounds

theorem movedColumn_lt_iff (column : Nat) :
    (movedColumn (placed start order) column < start ↔ column < start) ∧
      (movedColumn (placed start order) column < stop ↔ column < stop) := by
  rcases movedColumn_cases htiles horder column with ⟨place, hplace, hcolumn, heq⟩ | ⟨-, heq⟩
  · have hle := placed_le htiles horder hplace
    have hbounds := htiles.bounds (horder.mem_iff.1 (mem_of_placed hplace))
    simp only [HasColumn, width] at hcolumn hle
    omega
  · rw [heq]
    exact ⟨Iff.rfl, Iff.rfl⟩

/-- A column that counts from 1 goes to one that does. -/
theorem one_le_movedColumn_iff (hstart : 1 ≤ start) (column : Nat) :
    1 ≤ movedColumn (placed start order) column ↔ 1 ≤ column := by
  have hlt := (movedColumn_lt_iff htiles horder column).1
  by_cases hcolumn : column < start
  · rw [movedColumn_of_outside htiles horder (Or.inl hcolumn)]
  · omega

/-- **No two columns go to the same one.** -/
theorem movedColumn_injective : Function.Injective (movedColumn (placed start order)) := by
  intro column column' heq
  have hlt := movedColumn_lt_iff htiles horder column
  have hlt' := movedColumn_lt_iff htiles horder column'
  rcases movedColumn_cases htiles horder column with
    ⟨place, hplace, hcolumn, hmoved⟩ | ⟨hout, hmoved⟩
  · rcases movedColumn_cases htiles horder column' with
      ⟨other, hother, hcolumn', hmoved'⟩ | ⟨hout', hmoved'⟩
    · have happart : (placed start order).Pairwise fun place next =>
          place.1 + place.2.width ≤ next.1 ∨ next.1 + next.2.width ≤ place.1 :=
        (pairwise_placed start order).imp Or.inl
      have : Std.Symm fun place next : Nat × Layout =>
          place.1 + place.2.width ≤ next.1 ∨ next.1 + next.2.width ≤ place.1 :=
        ⟨fun _ _ h => h.symm⟩
      simp only [HasColumn] at hcolumn hcolumn'
      have hsame : place = other := by
        by_contra hne
        have := happart.forall hplace hother hne
        simp only [width] at this
        omega
      subst hsame
      omega
    · have hbounds := htiles.bounds (horder.mem_iff.1 (mem_of_placed hplace))
      simp only [HasColumn] at hcolumn
      omega
  · rw [hmoved, movedColumn_of_outside htiles horder (by omega)] at heq
    exact heq

end Moved

/-! ## The blocks of a header -/

/-- The labels around a label end in those around the whole. -/
theorem suffix_of_mem_nodes {layout : Layout} {around : List Layout} {node : Node}
    (h : node ∈ nodes around layout) : around <:+ node.around := by
  induction layout using Layout.induction generalizing around with
  | step layout ih =>
    rw [nodes_eq] at h
    rcases List.mem_cons.1 h with rfl | h
    · exact List.suffix_refl _
    · obtain ⟨label, hlabel, h⟩ := mem_nodesAll.1 h
      exact (List.suffix_cons _ _).trans (ih label hlabel h)

/-- A label inside others starts in their columns. -/
theorem first_le_of_mem_nodes {layout : Layout} {around : List Layout} {node : Node} {stop : Nat}
    (hspans : SpansAll layout.first stop layout.members) (h : node ∈ nodes around layout) :
    layout.first ≤ node.label.first := by
  induction layout using Layout.induction generalizing around stop with
  | step layout ih =>
    rw [nodes_eq] at h
    rcases List.mem_cons.1 h with rfl | h
    · exact le_rfl
    · obtain ⟨label, hlabel, h⟩ := mem_nodesAll.1 h
      obtain ⟨hfirst, middle, -, -, -, hbelow⟩ := hspans.exists_of_mem hlabel
      exact hfirst.trans (ih label hlabel hbelow h)

open HeaderScan

variable {sheet : Sheet} {headerRows row : Nat} {layout : Layout}
  {pairs : List (HeaderLabel × Node)} {pair : HeaderLabel × Node}

namespace Pairing

/-- A label of the first row hangs under the root. -/
theorem around_of_first (h : Pairing sheet headerRows layout pairs) (hpair : pair ∈ pairs)
    (hrow : pair.1.row = 1) : pair.2.around = [layout] ∧ pair.2.label ∈ layout.members := by
  obtain ⟨before, after, heq⟩ := List.append_of_mem hpair
  have hshows := h.shows before pair after heq
  have hlisted : pair.2 ∈ layout.listing := by
    rw [← h.listing_eq]
    exact List.mem_map_of_mem hpair
  obtain ⟨label, hlabel, hnode⟩ := mem_nodesAll.1 hlisted
  have haround : pair.2.around = [layout] := by
    rcases (h.row_le hpair).lt_or_eq with hlt | hfinal
    · have hlength : pair.2.around.length = 1 := (hshows.depth_eq hlt).trans hrow
      exact ((suffix_of_mem_nodes hnode).eq_of_length hlength.symm).symm
    · -- no label stands above the only header row
      have hnone : (before.reverse.find? fun pair => pair.1.row < headerRows) = none := by
        rw [List.find?_eq_none]
        intro other hother
        have hmem : other ∈ pairs := heq ▸ List.mem_append_left _ (List.mem_reverse.1 hother)
        have := (Authored.mem_headerPositions.1 (h.mem_header other hmem)).1.1
        simp only [decide_eq_true_eq]
        omega
      rw [hshows.around_eq hfinal, nearest, hnone]
      rfl
  refine ⟨haround, ?_⟩
  rcases mem_members_of_mem_nodes hnode with heq | ⟨parent, outer, hparent, hmember⟩
  · rw [heq]
    exact hlabel
  · rw [haround] at hparent
    cases hparent
    exact hmember

end Pairing

/-- All labels under the root stand in the first row of the header. -/
def InFirstRow (sheet : Sheet) (layout : Layout) : Prop :=
  ∀ label ∈ layout.members, HasLabel sheet 1 label.first

/-- Where the labels of a header stand when those under the root are in the first row. -/
structure FirstRow (sheet : Sheet) (headerRows : Nat) (layout : Layout) : Prop where
  /-- The labels of the first row are those under the root. -/
  exists_of_hasLabel {column : Nat} : 1 ≤ column → column ≤ sheet.maxColumn →
    HasLabel sheet 1 column → ∃ label ∈ layout.members, label.first = column
  range {label : Layout} : label ∈ layout.members →
    label.first ≤ label.last ∧ label.last ≤ sheet.maxColumn
  endsAt {label : Layout} : label ∈ layout.members →
    EndsAt sheet ⟨1, label.first, label.name⟩ sheet.maxColumn label.last
  /-- No label stands to the left of all those under the root. -/
  exists_of_column {row column : Nat} : 1 ≤ row → row ≤ headerRows → 1 ≤ column →
    column ≤ sheet.maxColumn → HasLabel sheet row column →
    ∃ label ∈ layout.members, label.first ≤ column
  increasing : (layout.members.map first).Pairwise (· < ·)

theorem firstRow_ofSheet (h : Layout.ofSheet sheet headerRows = .ok layout) (hpos : 0 < headerRows)
    (hrow : InFirstRow sheet layout) : FirstRow sheet headerRows layout := by
  obtain ⟨hone, hlast, -⟩ := charted_ofSheet h
  have hspans := spansAll_ofSheet h
  have hincreasing := hspans.pairwise_first
  obtain ⟨pairs, hpairs⟩ := exists_pairing h
  have hposition : ∀ {column}, 1 ≤ column → column ≤ sheet.maxColumn →
      (1, column) ∈ headerPositions sheet.maxColumn headerRows := fun h₁ h₂ =>
    Authored.mem_headerPositions.2 ⟨⟨le_rfl, hpos⟩, h₁, h₂⟩
  have hends : ∀ label ∈ layout.members, label.first ≤ label.last ∧
      label.last ≤ sheet.maxColumn ∧
      EndsAt sheet ⟨1, label.first, label.name⟩ sheet.maxColumn label.last := by
    intro label hlabel
    obtain ⟨hfirst, middle, hmiddle, hlt, -, -⟩ := hspans.exists_of_mem hlabel
    obtain ⟨⟨⟨row, column, name⟩, node⟩, hpair, hfirstRow, hcolumn⟩ :=
      hpairs.complete 1 label.first (hposition (by omega) (by omega)) (hrow label hlabel)
    simp only at hfirstRow hcolumn
    subst hfirstRow hcolumn
    obtain ⟨haround, hmember⟩ := hpairs.around_of_first hpair rfl
    have hsame : node.label = label := List.inj_on_of_nodup_map (hincreasing.imp ne_of_lt)
      hmember hlabel (hpairs.first_eq _ hpair)
    obtain ⟨before, after, heq⟩ := List.append_of_mem hpair
    obtain ⟨parent, hparent, -, hle, hle', hends⟩ := (hpairs.shows before _ after heq).range
    rw [haround] at hparent
    cases hparent
    rw [hsame, hlast] at hends
    rw [hsame] at hle hle'
    exact ⟨hle, hle'.trans_eq hlast, hends.before_next, hends.at_stop⟩
  refine ⟨fun h₁ h₂ hlabel => ?_, fun hlabel => ⟨(hends _ hlabel).1, (hends _ hlabel).2.1⟩,
    fun hlabel => (hends _ hlabel).2.2, fun h₁ h₂ h₃ h₄ hlabel => ?_, hincreasing⟩
  · obtain ⟨pair, hpair, hfirst, hcolumn⟩ := hpairs.complete 1 _ (hposition h₁ h₂) hlabel
    exact ⟨_, (hpairs.around_of_first hpair hfirst).2, (hpairs.first_eq pair hpair).trans hcolumn⟩
  · obtain ⟨pair, hpair, rfl, rfl⟩ := hpairs.complete _ _
      (Authored.mem_headerPositions.2 ⟨⟨h₁, h₂⟩, h₃, h₄⟩) hlabel
    have hlisted : pair.2 ∈ layout.listing := by
      rw [← hpairs.listing_eq]
      exact List.mem_map_of_mem hpair
    obtain ⟨label, hmem, hnode⟩ := mem_nodesAll.1 hlisted
    obtain ⟨-, middle, -, -, -, hbelow⟩ := hspans.exists_of_mem hmem
    exact ⟨label, hmem, (first_le_of_mem_nodes hbelow hnode).trans_eq (hpairs.first_eq pair hpair)⟩

namespace FirstRow

variable {before rest : List Layout}

theorem pairwise_split (h : FirstRow sheet headerRows layout)
    (heq : layout.members = before ++ label :: rest) :
    (∀ other ∈ before, other.first < label.first) ∧
      ∀ other ∈ rest, label.first < other.first := by
  have hincreasing := List.pairwise_map.1 h.increasing
  rw [heq] at hincreasing
  obtain ⟨-, hrest, hbefore⟩ := List.pairwise_append.1 hincreasing
  exact ⟨fun other hother => hbefore other hother label List.mem_cons_self,
    (List.pairwise_cons.1 hrest).1⟩

/-- The labels of the first row after one of the root's are those of the ones after it. -/
theorem exists_after (h : FirstRow sheet headerRows layout)
    (heq : layout.members = before ++ label :: rest) (hlt : label.first < column)
    (hle : column ≤ sheet.maxColumn) (hlabel : HasLabel sheet 1 column) :
    ∃ other ∈ rest, other.first = column := by
  obtain ⟨other, hother, hcolumn⟩ := h.exists_of_hasLabel (by omega) hle hlabel
  refine ⟨other, ?_, hcolumn⟩
  rw [heq, List.mem_append, List.mem_cons] at hother
  rcases hother with hother | rfl | hother
  · have := (h.pairwise_split heq).1 other hother
    omega
  · omega
  · exact hother

/-- From one of the labels under the root on, their columns lie beside each other. -/
theorem tiles (h : FirstRow sheet headerRows layout) (hrow : InFirstRow sheet layout)
    (heq : layout.members = before ++ label :: rest) :
    Tiles label.first (sheet.maxColumn + 1) (label :: rest) := by
  induction rest generalizing before label with
  | nil =>
    have hmem : label ∈ layout.members := heq ▸ List.mem_append_right _ List.mem_cons_self
    have hlast := (h.endsAt hmem).at_stop fun column h₁ h₂ hlabel => by
      obtain ⟨other, hother, -⟩ := h.exists_after heq h₁ h₂ hlabel
      cases hother
    exact .cons rfl (h.range hmem).1 (hlast ▸ .nil)
  | cons next rest ih =>
    have hmem : label ∈ layout.members := heq ▸ List.mem_append_right _ List.mem_cons_self
    have hnext : next ∈ layout.members := heq ▸ by simp
    have heq' : layout.members = (before ++ [label]) ++ next :: rest := by simp [heq]
    have hle := (h.range hnext).1.trans (h.range hnext).2
    have hleast : IsLeast {column | label.first < column ∧ HasLabel sheet 1 column} next.first := by
      refine ⟨⟨(h.pairwise_split heq).2 next List.mem_cons_self, hrow next hnext⟩, ?_⟩
      rintro column ⟨hlt, hlabel⟩
      by_contra hbelow
      obtain ⟨other, hother, hcolumn⟩ := h.exists_after heq hlt (by omega) hlabel
      rcases List.mem_cons.1 hother with rfl | hother
      · omega
      · have := (h.pairwise_split heq').2 other hother
        omega
    refine .cons rfl (h.range hmem).1 ?_
    rw [(h.endsAt hmem).before_next next.first hleast hle]
    exact ih heq'

end FirstRow

/-- A header that consists of blocks: the first row has the labels of the blocks and no others, and
no label stands before the first block. -/
structure InBlocks (sheet : Sheet) (headerRows start : Nat) (labels : List Layout) : Prop where
  pos : 1 ≤ start
  tiles : Tiles start (sheet.maxColumn + 1) labels
  hasLabel {label : Layout} : label ∈ labels → HasLabel sheet 1 label.first
  blank_after {label : Layout} {column : Nat} : label ∈ labels → label.first < column →
    column ≤ label.last → sheet.text 1 column = .ok ""
  blank_before {row column : Nat} : 1 ≤ row → row ≤ headerRows → 1 ≤ column → column < start →
    sheet.text row column = .ok ""

/-- **A header whose labels under the root stand in the first row consists of blocks.** -/
theorem inBlocks_ofSheet (h : Layout.ofSheet sheet headerRows = .ok layout) (hpos : 0 < headerRows)
    (hrow : InFirstRow sheet layout) {rest : List Layout}
    (hmembers : layout.members = label :: rest) :
    InBlocks sheet headerRows label.first layout.members := by
  have hfirst := firstRow_ofSheet h hpos hrow
  have htiles : Tiles label.first (sheet.maxColumn + 1) layout.members := by
    rw [hmembers]
    exact hfirst.tiles hrow (show layout.members = [] ++ label :: rest from hmembers)
  obtain ⟨-, -, charts, -, hlabels, -⟩ := charted_ofSheet h
  have hblank : ∀ {row column}, 1 ≤ row → row ≤ headerRows → 1 ≤ column →
      column ≤ sheet.maxColumn → ¬ HasLabel sheet row column →
      sheet.text row column = .ok "" := by
    intro row column h₁ h₂ h₃ h₄ hnone
    obtain ⟨name, htext⟩ := Sheet.exists_text_of_labelsAt hlabels (row, column)
      (Authored.mem_headerPositions.2 ⟨⟨h₁, h₂⟩, h₃, h₄⟩)
    by_cases hname : name = ""
    · rw [← hname]
      exact htext
    · exact absurd ⟨name, htext, hname⟩ hnone
  have hone : 1 ≤ label.first := by
    rw [← (charted_ofSheet h).1]
    exact ((spansAll_ofSheet h).exists_of_mem (hmembers ▸ List.mem_cons_self)).1
  refine ⟨hone, htiles, fun hlabel => hrow _ hlabel, fun {inner column} hinner hlt hle => ?_,
    fun {row column} h₁ h₂ h₃ hlt => ?_⟩
  · have hlast := (htiles.bounds hinner).2.2
    refine hblank le_rfl hpos (by omega) (by omega) fun hlabel => ?_
    obtain ⟨other, hother, hcolumn⟩ := hfirst.exists_of_hasLabel (by omega) (by omega) hlabel
    have hsame : inner = other := htiles.eq_of_hasColumn hinner hother ⟨hlt.le, hle⟩
      ⟨hcolumn.le, hcolumn ▸ (htiles.bounds hother).2.1⟩
    rw [hsame] at hlt
    omega
  · have hstop := htiles.le
    refine hblank h₁ h₂ h₃ (by omega) fun hlabel => ?_
    obtain ⟨other, hother, hle⟩ := hfirst.exists_of_column h₁ h₂ h₃ (by omega) hlabel
    have := (htiles.bounds hother).1
    omega

end Layout

end TableExport
