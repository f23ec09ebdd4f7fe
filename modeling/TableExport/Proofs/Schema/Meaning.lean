import TableExport.Proofs.Schema.Children
import TableExport.Proofs.Validation.Typing

/-!
# The meaning of schemas with references

What a schema accepts under draft 7, for the keywords that say types, values, properties, items and
combinations. What the keywords of one schema say is a `Demands`, in which the schemas below stand
as the sets of values that they accept; a value that meets the demands is accepted.

A schema with `$ref` accepts what the schema accepts that the reference leads to, whatever stands
beside it. References may lead in circles, so the meaning is approached from a bounded number of
steps, each to a schema below or along a reference: `Library.AcceptsWithin` is the answer after so
many steps, and a value is accepted, or rejected, when all answers from some number of steps on say
so (`Library.Accepts`, `Library.Rejects`).

Two schemas with the same demands have the same meaning, so what keeps the demands keeps the
meaning (`Library.acceptsWithin_eq_demands`).
-/

namespace TableExport

/-! ## Equal values -/

/-- Equality of values under draft 7: of numbers by value, and of objects whatever the order of
their members. -/
inductive Json.SameAs : Json → Json → Prop
  | null : SameAs .null .null
  | bool (value : Bool) : SameAs (.bool value) (.bool value)
  | num {first second : Number} : first.compare second = .eq → SameAs (.num first) (.num second)
  | str (text : String) : SameAs (.str text) (.str text)
  | arr {items items' : List Json} : List.Forall₂ SameAs items items' →
    SameAs (.arr items) (.arr items')
  | obj {members members' : Entries Json} :
    (∀ name, (members.get? name).isSome = (members'.get? name).isSome) →
    (∀ name part part', members.get? name = some part → members'.get? name = some part' →
      SameAs part part') →
    SameAs (.obj members) (.obj members')

/-! ## Demands -/

/-- What the keywords of one schema say. A schema below stands as the set of values that it
accepts. -/
structure Demands where
  /-- Nothing is accepted: the schema is `false`. -/
  refused : Prop
  type : Option Json
  enum : Option (List Json)
  const : Option Json
  required : List String
  properties : List (String × (Json → Prop))
  patternProperties : List (String × (Json → Prop))
  additionalProperties : Option (Json → Prop)
  /-- One schema for all items. -/
  items : Option (Json → Prop)
  /-- One schema for each of the first items. -/
  firstItems : List (Json → Prop)
  allOf : List (Json → Prop)
  anyOf : Option (List (Json → Prop))
  oneOf : Option (List (Json → Prop))
  not : Option (Json → Prop)

/-- Whether `properties` or `patternProperties` speak for a property. A text that is no pattern
fits no name. -/
def Demands.Names (demands : Demands) (name : String) : Prop :=
  name ∈ demands.properties.map Prod.fst ∨
    ∃ text ∈ demands.patternProperties.map Prod.fst,
      Keyword.fits (Pattern.ofString? text) name = true

/-- A value meets what each keyword demands. A keyword says nothing of a value of another kind than
its own. -/
structure Demands.Met (demands : Demands) (value : Json) : Prop where
  allowed : ¬ demands.refused
  type : ∀ types ∈ demands.type, HasType types value
  enum : ∀ choices ∈ demands.enum, ∃ choice ∈ choices, choice.SameAs value
  const : ∀ constant ∈ demands.const, constant.SameAs value
  required : ∀ members, value = .obj members →
    ∀ name ∈ demands.required, (Entries.get? members name).isSome
  properties : ∀ members, value = .obj members → ∀ property ∈ demands.properties,
    ∀ part ∈ Entries.get? members property.1, property.2 part
  patternProperties : ∀ members, value = .obj members → ∀ pattern ∈ demands.patternProperties,
    ∀ member ∈ members, Keyword.fits (Pattern.ofString? pattern.1) member.1 = true →
      pattern.2 member.2
  additionalProperties : ∀ members, value = .obj members →
    ∀ accepted ∈ demands.additionalProperties, ∀ member ∈ members,
      ¬ demands.Names member.1 → accepted member.2
  items : ∀ items, value = .arr items → ∀ accepted ∈ demands.items, ∀ item ∈ items, accepted item
  firstItems : ∀ items, value = .arr items →
    ∀ pair ∈ demands.firstItems.zip items, pair.1 pair.2
  allOf : ∀ accepted ∈ demands.allOf, accepted value
  anyOf : ∀ choices ∈ demands.anyOf, ∃ accepted ∈ choices, accepted value
  oneOf : ∀ choices ∈ demands.oneOf,
    ∃! i : Nat, ∃ accepted, choices[i]? = some accepted ∧ accepted value
  not : ∀ accepted ∈ demands.not, ¬ accepted value

namespace Json

variable (accepts : Json → Json → Prop) (schema : Json)

/-- The schemas under the names of a keyword, as what they accept. -/
def acceptedNamed (keyword : String) : List (String × (Json → Prop)) :=
  (((schema.get? keyword).bind obj?).getD []).map fun member => (member.1, accepts member.2)

/-- The schemas in the list of a keyword, as what they accept. -/
def acceptedList (keyword : String) : Option (List (Json → Prop)) :=
  ((schema.get? keyword).bind arr?).map (·.map accepts)

/-- The schema of a keyword, as what it accepts. -/
def acceptedSingle (keyword : String) : Option (Json → Prop) :=
  (schema.get? keyword).map accepts

/-- What a schema demands, where `accepts` is what the schemas below accept. -/
def demands : Demands where
  refused := schema = .bool false
  type := schema.get? "type"
  enum := (schema.get? "enum").bind arr?
  const := schema.get? "const"
  required := (((schema.get? "required").bind arr?).getD []).filterMap str?
  properties := schema.acceptedNamed accepts "properties"
  patternProperties := schema.acceptedNamed accepts "patternProperties"
  additionalProperties := schema.acceptedSingle accepts "additionalProperties"
  items := ((schema.get? "items").filter fun each => each.arr?.isNone).map accepts
  firstItems := (schema.acceptedList accepts "items").getD []
  allOf := (schema.acceptedList accepts "allOf").getD []
  anyOf := schema.acceptedList accepts "anyOf"
  oneOf := schema.acceptedList accepts "oneOf"
  not := schema.acceptedSingle accepts "not"

end Json

/-! ## Meaning -/

namespace Library

/-- Whether a schema of a document accepts a value, as far as it can be told in a number of steps to
schemas below and along references. -/
def AcceptsWithin (library : Library (Except SchemaError)) :
    Nat → String → Json → Json → Prop
  | 0, _, _, _ => False
  | steps + 1, document, schema, value =>
    (∃ next, library.Refers ⟨document, schema⟩ next ∧
      AcceptsWithin library steps next.document next.node value) ∨
    schema.get? "$ref" = none ∧
      (schema.demands fun below part => AcceptsWithin library steps document below part).Met value

/-- A schema of a document accepts a value. -/
def Accepts (library : Library (Except SchemaError)) (document : String) (schema value : Json) :
    Prop :=
  ∃ enough, ∀ steps ≥ enough, library.AcceptsWithin steps document schema value

/-- A schema of a document does not accept a value. -/
def Rejects (library : Library (Except SchemaError)) (document : String) (schema value : Json) :
    Prop :=
  ∃ enough, ∀ steps ≥ enough, ¬ library.AcceptsWithin steps document schema value

variable {library : Library (Except SchemaError)} {document : String} {schema : Json}

/-- A schema with a reference accepts what the schema accepts that the reference leads to. -/
theorem acceptsWithin_of_refers {next : SchemaPlace}
    (h : library.Refers ⟨document, schema⟩ next) (steps : Nat) :
    library.AcceptsWithin (steps + 1) document schema =
      library.AcceptsWithin steps next.document next.node := by
  funext value
  refine propext ⟨?_, fun hnext => Or.inl ⟨next, h, hnext⟩⟩
  rintro (⟨other, hother, haccepts⟩ | ⟨href, -⟩)
  · rwa [refers_rightUnique h hother]
  · exact absurd href h.get?_ne_none

/-- A schema accepts what the schema accepts that it is resolved to, a step for each reference
later. -/
theorem acceptsWithin_of_follow {hops : Nat} {from_ last : Resolved}
    (h : library.follow hops from_ = .ok last) :
    ∃ count ≤ hops, ∀ steps, library.AcceptsWithin (steps + count) from_.document from_.schema =
      library.AcceptsWithin steps last.document last.schema := by
  induction hops generalizing from_ with
  | zero =>
    rcases get?_ref_cases from_.schema with href | ⟨reference, href⟩ | ⟨value, href, hvalue⟩
    · rw [follow_of_get?_eq_none href] at h
      cases h
      exact ⟨0, le_refl 0, fun _ => rfl⟩
    · rw [follow_zero href] at h
      cases h
    · rw [follow_of_not_text href hvalue] at h
      cases h
  | succ hops ih =>
    rcases get?_ref_cases from_.schema with href | ⟨reference, href⟩ | ⟨value, href, hvalue⟩
    · rw [follow_of_get?_eq_none href] at h
      cases h
      exact ⟨0, Nat.zero_le _, fun _ => rfl⟩
    · rw [follow_succ href] at h
      obtain ⟨next, hnext, h⟩ := bind_eq_ok.1 h
      have hrefers := (place_of_hopsTo ⟨reference, href, hnext⟩ (Or.inr rfl)).1
      obtain ⟨count, hcount, hsteps⟩ := ih h
      refine ⟨count + 1, Nat.succ_le_succ hcount, fun steps => ?_⟩
      rw [← hsteps]
      exact acceptsWithin_of_refers hrefers (steps + count)
    · rw [follow_of_not_text href hvalue] at h
      cases h

/-- **A schema without a reference accepts what meets its demands.** -/
theorem acceptsWithin_eq_demands (h : schema.get? "$ref" = none) (document : String)
    (steps : Nat) :
    library.AcceptsWithin (steps + 1) document schema =
      (schema.demands (library.AcceptsWithin steps document)).Met := by
  funext value
  refine propext ⟨?_, fun hmet => Or.inr ⟨h, hmet⟩⟩
  rintro (⟨next, hnext, -⟩ | ⟨-, hmet⟩)
  · exact absurd h hnext.get?_ne_none
  · exact hmet

/-- What is no object demands nothing, or refuses everything. -/
theorem demands_of_obj?_eq_none (h : schema.obj? = none) (accepts : Json → Json → Prop) :
    schema.demands accepts = ⟨schema = .bool false, none, none, none, [], [], [], none, none, [],
      [], none, none, none⟩ := by
  simp [Json.demands, Json.acceptedNamed, Json.acceptedList, Json.acceptedSingle,
    get?_of_obj?_eq_none h]

theorem acceptsWithin_congr_of_obj?_eq_none {library' : Library (Except SchemaError)}
    {schema' : Json} (h : schema.obj? = none) (h' : schema'.obj? = none)
    (hfalse : schema = .bool false ↔ schema' = .bool false) (document document' : String)
    {steps steps' : Nat} (hsteps : 0 < steps) (hsteps' : 0 < steps') :
    library.AcceptsWithin steps document schema =
      library'.AcceptsWithin steps' document' schema' := by
  obtain ⟨steps, rfl⟩ := Nat.exists_eq_add_one_of_ne_zero hsteps.ne'
  obtain ⟨steps', rfl⟩ := Nat.exists_eq_add_one_of_ne_zero hsteps'.ne'
  rw [acceptsWithin_eq_demands (get?_of_obj?_eq_none h _),
    acceptsWithin_eq_demands (get?_of_obj?_eq_none h' _), demands_of_obj?_eq_none h,
    demands_of_obj?_eq_none h', propext hfalse]

end Library

end TableExport
