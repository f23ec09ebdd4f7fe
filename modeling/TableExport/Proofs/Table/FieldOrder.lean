import TableExport.Proofs.Entries
import TableExport.Proofs.Table.Columns

/-!
# The order of the fields

Fields are found by their names, so the order in which a type tree lists them does not matter. Two
trees with the same fields at all levels, in any order (`TypeTree.Reordered`), take the same header
rows, are covered by the same layouts and read the same records (`extractTable_reordered`); the keys
of a record follow the header in both cases.

* `TypeTree.Reordered.member?_cases`: under a name there are fields of the same kind, or none.
* `Layout.covers_reordered`: the same layouts cover both trees.
* `Extraction.readRecord_reordered`: the same records are read.
-/

namespace TableExport

namespace TypeTree

/-- The members of each composite have different names. -/
inductive Distinct : TypeTree → Prop
  | mk {tree : TypeTree} : (tree.members.map name).Nodup →
    (∀ member ∈ tree.members, Distinct member) → Distinct tree

/-- The same fields at all levels, in any order: the members of a composite are put one for one and
then in another order. -/
inductive Reordered : TypeTree → TypeTree → Prop
  | leaf (field : Field) (type : ScalarType) : Reordered (.leaf field type) (.leaf field type)
  | composite {field : Field} {members middle others : List TypeTree} :
    members.length = middle.length → (∀ pair ∈ members.zip middle, Reordered pair.1 pair.2) →
    middle.Perm others → Reordered (.composite field members) (.composite field others)

namespace Reordered

variable {tree other : TypeTree}

theorem of_forall₂ {field : Field} {members middle others : List TypeTree}
    (hpairs : List.Forall₂ Reordered members middle) (hperm : middle.Perm others) :
    Reordered (.composite field members) (.composite field others) :=
  have ⟨hlength, hzip⟩ := List.forall₂_iff_zip.1 hpairs
  .composite hlength (fun _ hpair => hzip hpair) hperm

theorem field_eq (h : Reordered tree other) : other.field = tree.field := by
  cases h <;> rfl

theorem name_eq (h : Reordered tree other) : other.name = tree.name :=
  congrArg Field.name h.field_eq

theorem isArray_eq (h : Reordered tree other) : other.isArray = tree.isArray :=
  congrArg Field.isArray h.field_eq

end Reordered

/-! ## Levels -/

theorem maxDepthAll_perm {members others : List TypeTree} (h : members.Perm others) :
    maxDepthAll members = maxDepthAll others := by
  induction h with
  | nil => rfl
  | cons member _ ih => rw [maxDepthAll, maxDepthAll, ih]
  | swap first second rest => simp only [maxDepthAll, max_left_comm]
  | trans _ _ ih₁ ih₂ => exact ih₁.trans ih₂

theorem maxDepthAll_congr {members others : List TypeTree}
    (h : List.Forall₂ (fun member other => other.maxDepth = member.maxDepth) members others) :
    maxDepthAll others = maxDepthAll members := by
  induction h with
  | nil => rfl
  | cons hfirst _ ih => rw [maxDepthAll, maxDepthAll, hfirst, ih]

/-- Trees with the same fields take the same header rows. -/
theorem Reordered.maxDepth_eq {tree other : TypeTree} (h : Reordered tree other) :
    other.maxDepth = tree.maxDepth := by
  induction h with
  | leaf => rfl
  | composite hlength _ hperm ih =>
    have hpairs := List.forall₂_iff_zip.2 ⟨hlength, fun hpair => ih _ hpair⟩
    rw [maxDepth, maxDepth, ← maxDepthAll_perm hperm, maxDepthAll_congr hpairs]

/-! ## Fields by their names -/

theorem names_eq {members others : List TypeTree} (h : List.Forall₂ Reordered members others) :
    members.map name = others.map name := by
  induction h with
  | nil => rfl
  | cons hfirst _ ih => rw [List.map_cons, List.map_cons, hfirst.name_eq, ih]

theorem rel_find? {members others : List TypeTree} (h : List.Forall₂ Reordered members others)
    (key : String) :
    Option.Rel Reordered (members.find? (·.name == key)) (others.find? (·.name == key)) := by
  induction h with
  | nil => exact .none
  | @cons member other _ _ hfirst _ ih =>
    rw [List.find?_cons, List.find?_cons, hfirst.name_eq]
    cases member.name == key with
    | true => exact .some hfirst
    | false => exact ih

/-- **Under a name there are fields of the same kind**, or none. -/
theorem Reordered.member?_cases {tree other : TypeTree} (h : Reordered tree other)
    (hdistinct : tree.Distinct) (key : String) :
    (tree.member? key = none ∧ other.member? key = none) ∨
      ∃ member member', tree.member? key = some member ∧ other.member? key = some member' ∧
        Reordered member member' ∧ member.Distinct := by
  obtain ⟨hnodup, hbelow⟩ := hdistinct
  have hrel : Option.Rel Reordered (tree.member? key) (other.member? key) := by
    cases h with
    | leaf => exact .none
    | @composite _ members middle others hlength hpairs hperm =>
      have hforall := List.forall₂_iff_zip.2 ⟨hlength, fun hpair => hpairs _ hpair⟩
      rw [member?, member?, TypeTree.members, TypeTree.members,
        ← Entries.find?_perm (names_eq hforall ▸ hnodup) hperm]
      exact rel_find? hforall key
  cases hmember : tree.member? key with
  | none =>
    rw [hmember] at hrel
    generalize hother : other.member? key = found at hrel
    cases hrel
    exact Or.inl ⟨rfl, rfl⟩
  | some member =>
    rw [hmember] at hrel
    generalize hother : other.member? key = found at hrel
    cases hrel with
    | some hsame =>
      exact Or.inr ⟨_, _, rfl, rfl, hsame, hbelow member (List.mem_of_find?_eq_some hmember)⟩

end TypeTree

open TypeTree

/-! ## Layouts that cover the fields -/

namespace Layout

/-- A layout covers fields when it has a label for each that covers what is below the field. -/
theorem coversAll_eq_ok {layout : Layout} {path : String} {members : List TypeTree} :
    layout.coversAll path members = .ok () ↔ ∀ member ∈ members, ∃ label,
      layout.member? member.name = some label ∧
        label.covers (joinPath path member.name) member = .ok () := by
  induction members with
  | nil => simp [coversAll]
  | cons member rest ih =>
    rw [coversAll, List.forall_mem_cons, ← ih]
    cases layout.member? member.name with
    | none => simp [throw, throwThe, MonadExceptOf.throw, bind, Except.bind]
    | some label =>
      have hunit : ∀ result : Unit, result = () := fun _ => rfl
      simp [bind_eq_ok, hunit]

/-- **The same layouts cover trees with the same fields.** -/
theorem covers_reordered {tree other : TypeTree} (h : Reordered tree other) :
    ∀ (layout : Layout) (path : String),
      layout.covers path tree = .ok () ↔ layout.covers path other = .ok () := by
  induction h with
  | leaf => exact fun _ _ => Iff.rfl
  | @composite field members middle others hlength hpairs hperm ih =>
    intro layout path
    rw [covers, covers, coversAll_eq_ok, coversAll_eq_ok]
    have hmiddle : (∀ member ∈ members, ∃ label, layout.member? member.name = some label ∧
          label.covers (joinPath path member.name) member = .ok ()) ↔
        ∀ member ∈ middle, ∃ label, layout.member? member.name = some label ∧
          label.covers (joinPath path member.name) member = .ok () := by
      clear hperm
      induction members generalizing middle with
      | nil => rw [List.length_eq_zero_iff.1 hlength.symm]
      | cons member rest ihrest =>
        cases middle with
        | nil => cases hlength
        | cons first middle =>
          rw [List.forall_mem_cons, List.forall_mem_cons, ihrest (Nat.succ.inj hlength)
            (fun pair hpair => hpairs pair (List.mem_cons_of_mem _ hpair))
            (fun pair hpair => ih pair (List.mem_cons_of_mem _ hpair)),
            (hpairs _ List.mem_cons_self).name_eq]
          simp only [ih _ List.mem_cons_self]
    rw [hmiddle]
    exact forall_congr' fun member => by rw [hperm.mem_iff]

end Layout

/-! ## Records -/

namespace Extraction

variable {α ε : Type} {coerce : ScalarType → Cell → Except ε α} {sheet : Sheet}
  {tree other : TypeTree}

theorem recordEnd_reordered (h : Reordered tree other) (hdistinct : tree.Distinct)
    (labels : List Layout) (start stop : Nat) :
    recordEnd sheet tree labels start stop = recordEnd sheet other labels start stop := by
  induction labels generalizing stop with
  | nil => rfl
  | cons label rest ih =>
    rw [recordEnd_cons, recordEnd_cons other, ih]
    congr 1
    simp only [recordEnd, List.foldl_cons, List.foldl_nil]
    rcases h.member?_cases hdistinct label.name with
      ⟨hnone, hnone'⟩ | ⟨member, member', hmember, hmember', hsame, -⟩
    · rw [hnone, hnone']
    · simp only [hmember, hmember', hsame.isArray_eq]

theorem addField_reordered (h : Reordered tree other) (fields : Entries (Extracted α)) :
    addField fields tree = addField fields other := by
  funext value
  simp only [addField, h.name_eq, h.isArray_eq]

/-- Fields are read alike when each is read alike under its label. -/
theorem readFields_reordered (h : Reordered tree other) (hdistinct : tree.Distinct)
    {labels : List Layout} {start stop : Nat}
    (hread : ∀ label ∈ labels, ∀ {member member'}, Reordered member member' → member.Distinct →
      readField coerce sheet member label start stop =
        readField coerce sheet member' label start stop)
    (fields : Entries (Extracted α)) :
    readFields coerce sheet tree labels start stop fields =
      readFields coerce sheet other labels start stop fields := by
  induction labels generalizing fields with
  | nil => rw [readFields, readFields]
  | cons label rest ih =>
    have ih' := ih fun inner hinner => hread inner (List.mem_cons_of_mem _ hinner)
    rcases h.member?_cases hdistinct label.name with
      ⟨hnone, hnone'⟩ | ⟨member, member', hmember, hmember', hsame, hbelow⟩
    · rw [readFields_cons_of_none hnone, readFields_cons_of_none hnone', ih']
    · rw [readFields_cons hmember, readFields_cons hmember',
        hread label List.mem_cons_self hsame hbelow, addField_reordered hsame]
      exact congrArg _ (funext fun value => ih' _)

/-- **The same record is read for trees with the same fields.** -/
theorem readRecord_reordered (layout : Layout) : ∀ {tree other : TypeTree},
    Reordered tree other → tree.Distinct → ∀ start stop,
      readRecord coerce sheet tree layout start stop =
        readRecord coerce sheet other layout start stop := by
  induction layout using Layout.induction with
  | step layout ih =>
    intro tree other h hdistinct start stop
    rw [readRecord_eq, readRecord_eq, recordEnd_reordered h hdistinct]
    congr 1
    refine readFields_reordered h hdistinct (fun label hlabel member member' hsame hmember => ?_) []
    have hrecord := @ih label hlabel member member' hsame hmember
    cases hsame with
    | leaf => rfl
    | composite =>
      simp only [readField_composite, readRecords, hrecord]

/-- The same rows are read for trees with the same fields. -/
theorem readTable_reordered (h : Reordered tree other) (hdistinct : tree.Distinct)
    (layout : Layout) (headerRows : Nat) :
    readTable coerce sheet tree layout headerRows =
      readTable coerce sheet other layout headerRows := by
  simp only [readTable, readRecords, readRecord_reordered layout h hdistinct]

end Extraction

/-- **Fields are matched by their names, not by their order.** Type trees with the same fields at all
levels, in any order, extract the same records from a sheet, with their keys in the same order; a
table that is not extracted for one of them is not extracted for the other. -/
theorem extractTable_reordered {tree other : TypeTree} (h : Reordered tree other)
    (hdistinct : tree.Distinct) (sheet : Sheet) (records : List (Extracted Scalar)) :
    extractTable sheet tree = .ok records ↔ extractTable sheet other = .ok records := by
  rw [extractTable, extractTable, h.maxDepth_eq]
  simp only [bind_eq_ok]
  refine exists_congr fun layout => and_congr_right fun _ => ?_
  rw [Extraction.readTable_reordered h hdistinct]
  exact exists_congr fun _ => and_congr_left fun _ => Layout.covers_reordered h layout ""

namespace Stock

/-- The size of a piece with its fields in another order. -/
def turnedSize : TypeTree := .composite { name := "size" } [field "depth", field "width"]

/-- The pieces of an item with their fields in another order. -/
def turnedPieces : TypeTree :=
  .composite { name := "pieces", isArray := true } [turnedSize, field "code"]

/-- Items in stock with the fields of each level in another order. -/
def turnedType : TypeTree :=
  .composite { name := TypeTree.rootName, isArray := true } [tags, turnedPieces, field "id"]

theorem distinct_type : type.Distinct := by
  have hfield : ∀ name, (field name).Distinct := fun _ => .mk List.nodup_nil nofun
  have hsize : size.Distinct := by
    refine .mk (by decide) fun member hmember => ?_
    rcases List.mem_pair.1 hmember with rfl | rfl
    · exact hfield "width"
    · exact hfield "depth"
  have hpieces : pieces.Distinct := by
    refine .mk (by decide) fun member hmember => ?_
    rcases List.mem_pair.1 hmember with rfl | rfl
    · exact hfield "code"
    · exact hsize
  refine .mk (by decide) fun member hmember => ?_
  rcases List.mem_cons.1 hmember with rfl | hmember
  · exact hfield "id"
  rcases List.mem_pair.1 hmember with rfl | rfl
  · exact hpieces
  · exact .mk List.nodup_nil nofun

theorem reordered_type : type.Reordered turnedType := by
  have hsize : size.Reordered turnedSize :=
    .of_forall₂ (.cons (.leaf _ _) (.cons (.leaf _ _) .nil)) (List.reverse_perm _).symm
  have hpieces : pieces.Reordered turnedPieces :=
    .of_forall₂ (.cons (.leaf _ _) (.cons hsize .nil)) (List.reverse_perm _).symm
  exact .of_forall₂ (.cons (.leaf _ _) (.cons hpieces (.cons (.leaf _ _) .nil)))
    (List.reverse_perm _).symm

theorem extractTable_turned : type.Reordered turnedType ∧ type.Distinct ∧
    extractTable (sheet items) turnedType = .ok [firstItem, secondItem] :=
  ⟨reordered_type, distinct_type,
    (extractTable_reordered reordered_type distinct_type _ _).1 extractTable_items⟩

end Stock

end TableExport
