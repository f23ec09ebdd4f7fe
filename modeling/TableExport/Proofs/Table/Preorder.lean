import TableExport.Proofs.Table.Ranges

/-!
# The pre-order listing of a layout

The labels of a layout are listed with those around them (`Layout.Node`), a label before the labels
below it (`Layout.nodes`, `Layout.listing`). A listing grows at its end while a header is scanned,
but the labels around a node grow with it, so the scan is followed with headings instead: labels
without what hangs under them (`Layout.outline`).

* `HeaderScan.outline`: the headings of all labels that a scan has met, open and closed.
* `HeaderScan.outline_descend`, `outline_attach`, `outline_close`: one label adds one heading at the
  end, and closing labels changes nothing.
* `Layout.isChain_nodes`: in a listing the labels around a node are some of the innermost ones on
  the way to the node before it, and all of them if that one has labels below.
-/

namespace TableExport

namespace Layout

/-! ## Listings -/

/-- A label of a layout with the labels around it, from the inside out. -/
structure Node where
  label : Layout
  around : List Layout

namespace Node

/-- The label with those around it. -/
def path (node : Node) : List Layout := node.label :: node.around

/-- How many labels are around a node. -/
def depth (node : Node) : Nat := node.around.length

@[simp] theorem length_path (node : Node) : node.path.length = node.depth + 1 := rfl

end Node

mutual

/-- A label and the labels below it in pre-order, inside the labels around it. -/
def nodes (around : List Layout) : Layout → List Node
  | ⟨name, first, last, members⟩ =>
    ⟨⟨name, first, last, members⟩, around⟩ ::
      nodesAll (⟨name, first, last, members⟩ :: around) members

/-- Labels beside each other, each followed by the labels below it. -/
def nodesAll (around : List Layout) : List Layout → List Node
  | [] => []
  | label :: rest => nodes around label ++ nodesAll around rest

end

/-- The labels below a layout in pre-order. -/
def listing (layout : Layout) : List Node := nodesAll [layout] layout.members

theorem nodes_eq (around : List Layout) (layout : Layout) :
    nodes around layout = ⟨layout, around⟩ :: nodesAll (layout :: around) layout.members := by
  obtain ⟨name, first, last, members⟩ := layout
  rw [nodes]

variable {layout : Layout} {around : List Layout} {node : Node}

theorem mem_nodesAll {labels : List Layout} :
    node ∈ nodesAll around labels ↔ ∃ label ∈ labels, node ∈ nodes around label := by
  induction labels with
  | nil => simp [nodesAll]
  | cons label rest ih => simp [nodesAll, ih]

/-- The labels under each label of a layout in blocks of columns lie in blocks. -/
theorem spansAll_of_mem_nodes {stop : Nat} (hspans : SpansAll layout.first stop layout.members)
    (h : node ∈ nodes around layout) :
    ∃ stop', SpansAll node.label.first stop' node.label.members := by
  induction layout using Layout.induction generalizing around stop with
  | step layout ih =>
    rw [nodes_eq] at h
    rcases List.mem_cons.1 h with rfl | h
    · exact ⟨stop, hspans⟩
    · obtain ⟨label, hlabel, h⟩ := mem_nodesAll.1 h
      obtain ⟨-, middle, -, -, -, hbelow⟩ := hspans.exists_of_mem hlabel
      exact ih label hlabel hbelow h

/-- Labels in blocks start further and further to the right. -/
theorem SpansAll.pairwise_first {start stop : Nat} {labels : List Layout}
    (h : SpansAll start stop labels) : (labels.map Layout.first).Pairwise (· < ·) := by
  induction labels generalizing start with
  | nil => exact List.Pairwise.nil
  | cons label rest ih =>
    cases h with
    | cons _ hlabel hrest =>
      obtain ⟨hlt, -, -⟩ := hlabel
      refine List.Pairwise.cons (fun first hfirst => ?_) (ih hrest)
      obtain ⟨other, hother, rfl⟩ := List.mem_map.1 hfirst
      exact hlt.trans_le (hrest.exists_of_mem hother).1

/-! ## From one node to the next -/

/-- What is around a node that is listed after another one: some of the innermost labels up to that
one, and all of them if there are labels below it. -/
structure Follows (node next : Node) : Prop where
  suffix : next.around <:+ node.path
  below : node.label.members ≠ [] → next.around = node.path

/-- The last of the listed labels has nothing below it, and is inside what all are in. -/
def EndsIn (around : List Layout) (listed : List Node) : Prop :=
  ∀ node ∈ listed.getLast?, node.label.members = [] ∧ around <:+ node.around

theorem isChain_nodesAll {labels : List Layout}
    (h : ∀ label ∈ labels, (nodes around label).IsChain Follows ∧
      EndsIn around (nodes around label)) :
    (nodesAll around labels).IsChain Follows ∧ EndsIn around (nodesAll around labels) := by
  induction labels with
  | nil =>
    rw [nodesAll]
    exact ⟨List.IsChain.nil, fun node hnode => by cases hnode⟩
  | cons label rest ih =>
    rw [List.forall_mem_cons] at h
    obtain ⟨⟨hfirst, hend⟩, hrest⟩ := h
    obtain ⟨hchain, hlast⟩ := ih hrest
    rw [nodesAll]
    refine ⟨List.isChain_append.2 ⟨hfirst, hchain, fun node hnode next hnext => ?_⟩, ?_⟩
    · -- the next label is beside this one, so nothing but what is around both is around it
      obtain ⟨hmembers, hsuffix⟩ := hend node hnode
      have haround : next.around = around := by
        cases rest with
        | nil =>
          rw [nodesAll] at hnext
          cases hnext
        | cons other rest =>
          rw [nodesAll, nodes_eq] at hnext
          cases hnext
          rfl
      exact ⟨haround ▸ hsuffix.trans (List.suffix_cons _ _), fun hne => absurd hmembers hne⟩
    · intro node hnode
      rw [List.getLast?_append] at hnode
      cases hsome : (nodesAll around rest).getLast? with
      | none =>
        rw [hsome] at hnode
        exact hend node hnode
      | some last =>
        rw [hsome] at hnode
        cases hnode
        exact hlast node hsome

/-- **The way from one listed label to the next.** -/
theorem isChain_nodes (layout : Layout) (around : List Layout) :
    (nodes around layout).IsChain Follows ∧ EndsIn around (nodes around layout) := by
  induction layout using Layout.induction generalizing around with
  | step layout ih =>
    obtain ⟨hchain, hend⟩ :=
      isChain_nodesAll fun label hlabel => ih label hlabel (layout :: around)
    rw [nodes_eq]
    constructor
    · refine List.isChain_cons.2 ⟨fun next hnext => ?_, hchain⟩
      have haround : next.around = layout :: around := by
        cases hmembers : layout.members with
        | nil =>
          rw [hmembers, nodesAll] at hnext
          cases hnext
        | cons label rest =>
          rw [hmembers, nodesAll, nodes_eq] at hnext
          cases hnext
          rfl
      exact ⟨haround ▸ List.suffix_refl _, fun _ => haround⟩
    · intro node hnode
      cases hmembers : layout.members with
      | nil =>
        rw [hmembers, nodesAll] at hnode
        cases hnode
        exact ⟨hmembers, List.suffix_refl around⟩
      | cons label rest =>
        have hne : nodesAll (layout :: around) layout.members ≠ [] := by
          rw [hmembers, nodesAll, nodes_eq]
          exact List.cons_ne_nil _ _
        rw [List.getLast?_cons_of_ne_nil hne] at hnode
        exact ⟨(hend node hnode).1, (List.suffix_cons _ _).trans (hend node hnode).2⟩

/-! ## Headings -/

/-- A label without the labels below it. -/
structure Heading where
  name : String
  first : Nat
  last : Nat

/-- A heading with those around it, from the inside out. -/
structure Entry where
  heading : Heading
  around : List Heading

/-- The heading of a label. -/
def heading (layout : Layout) : Heading := ⟨layout.name, layout.first, layout.last⟩

/-- The headings of a node. -/
def Node.entry (node : Node) : Entry := ⟨node.label.heading, node.around.map heading⟩

mutual

/-- The headings of a label and the labels below it in pre-order. -/
def outline (around : List Heading) : Layout → List Entry
  | ⟨name, first, last, members⟩ =>
    ⟨⟨name, first, last⟩, around⟩ :: outlineAll (⟨name, first, last⟩ :: around) members

/-- The headings of labels beside each other. -/
def outlineAll (around : List Heading) : List Layout → List Entry
  | [] => []
  | label :: rest => outline around label ++ outlineAll around rest

end

theorem outline_eq (around : List Heading) (layout : Layout) :
    outline around layout =
      ⟨layout.heading, around⟩ :: outlineAll (layout.heading :: around) layout.members := by
  obtain ⟨name, first, last, members⟩ := layout
  rw [outline]
  rfl

theorem outlineAll_append (around : List Heading) (labels others : List Layout) :
    outlineAll around (labels ++ others) =
      outlineAll around labels ++ outlineAll around others := by
  induction labels with
  | nil => rw [outlineAll, List.nil_append, List.nil_append]
  | cons label rest ih => rw [List.cons_append, outlineAll, outlineAll, ih, List.append_assoc]

/-- A label without labels below it is one heading. -/
theorem outline_of_leaf (around : List Heading) {label : Layout} (h : label.members = []) :
    outline around label = [⟨label.heading, around⟩] := by
  rw [outline_eq, h, outlineAll]

/-- The headings of a listing. -/
theorem map_entry_nodes (layout : Layout) (around : List Layout) :
    (nodes around layout).map Node.entry = outline (around.map heading) layout := by
  induction layout using Layout.induction generalizing around with
  | step layout ih =>
    rw [nodes_eq, outline_eq, List.map_cons]
    congr 1
    generalize layout.members = labels at ih
    induction labels with
    | nil => rw [nodesAll, outlineAll, List.map_nil]
    | cons label rest ihrest =>
      rw [List.forall_mem_cons] at ih
      rw [nodesAll, outlineAll, List.map_append, ih.1, ihrest ih.2]
      rfl

end Layout

/-! ## Headings of a scan -/

namespace HeaderScan

open Layout

/-- The headings of the open labels, from the inside out. -/
def headings (scan : HeaderScan) : List Heading := (scan.top :: scan.below).map heading

/-- The headings of open labels with all that hangs under them, in pre-order. -/
def outlineOf : List Layout → List Entry
  | [] => []
  | label :: below => outlineOf below ++ Layout.outline (below.map heading) label

/-- The headings of all labels that a scan has met, in pre-order. -/
def outline (scan : HeaderScan) : List Entry := outlineOf (scan.top :: scan.below)

variable {scan : HeaderScan}

/-- Hanging a label under the innermost open one adds its headings. -/
theorem outline_attach (scan : HeaderScan) (label : Layout) :
    (scan.attach label).outline = scan.outline ++ Layout.outline scan.headings label := by
  simp only [outline, outlineOf, attach, headings, outline_eq _ scan.top, List.append_assoc,
    List.cons_append, List.map_cons]
  rw [outline_eq, outlineAll_append, outlineAll, outlineAll, List.append_nil]
  rfl

/-- Opening a label adds its heading. -/
theorem outline_descend (scan : HeaderScan) (label : Layout) :
    (scan.descend label).outline = scan.outline ++ Layout.outline scan.headings label := rfl

/-- Closing labels changes no heading. -/
theorem outline_close (levels : Nat) (scan : HeaderScan) :
    (scan.close levels).outline = scan.outline := by
  induction levels generalizing scan with
  | zero => rw [close_zero]
  | succ levels ih =>
    obtain ⟨top, below⟩ := scan
    cases below with
    | nil => rw [close]
    | cons parent below =>
      rw [close, ih, outline_attach]
      rfl

/-- The headings of a scan are those of its root in the end. -/
theorem outline_root (scan : HeaderScan) : Layout.outline [] scan.root = scan.outline := by
  rw [← outline_close scan.below.length scan, outline, below_close]
  rfl

/-- The labels that are left open are the outermost ones. -/
theorem headings_close (levels : Nat) (scan : HeaderScan) :
    (scan.close levels).headings <:+ scan.headings := by
  induction levels generalizing scan with
  | zero =>
    rw [close_zero]
  | succ levels ih =>
    obtain ⟨top, below⟩ := scan
    cases below with
    | nil => rw [close]
    | cons parent below =>
      rw [close]
      exact (ih _).trans (List.suffix_cons _ _)

end HeaderScan

end TableExport
