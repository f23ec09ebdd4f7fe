import Mathlib
import TableExport.Validation.Check

/-!
# Where violations are found

The path to the keyword that a value breaks leads through the schema that it is checked against: a
check finds violations only below its own place (`Check.Stays`), and a keyword only under its own
name (`Keyword.starts_check`), or under the name of a keyword that it speaks for.
-/

namespace TableExport

/-! ## Checks -/

namespace Check

/-- The paths of all violations lead on from the place of the schema. -/
def Stays (check : Check) : Prop :=
  ∀ place value, ∀ violation ∈ check place value, place.schema.reverse <+: violation.schemaPath

theorem stays_nil : Stays fun _ _ => [] := fun _ _ _ h => by cases h

theorem stays_fail (breach : Breach) : (fail breach).Stays := by
  intro place value violation h
  rw [List.mem_singleton.1 h]

theorem stays_require (condition : Bool) (breach : Breach) : (require condition breach).Stays := by
  rw [require]
  split
  · exact stays_nil
  · exact stays_fail breach

/-- What is found one step inside the schema lies below that step. -/
theorem Stays.below {check : Check} (h : check.Stays) {place inner : Place} {segment : String}
    {value : Json} {violation : Violation} (hv : violation ∈ check inner value)
    (hinner : inner.schema = segment :: place.schema) :
    place.schema.reverse ++ [segment] <+: violation.schemaPath := by
  rw [← List.reverse_cons, ← hinner]
  exact h inner value violation hv

theorem Stays.of_below {check : Check} (h : check.Stays) {place inner : Place} {segment : String}
    {value : Json} {violation : Violation} (hv : violation ∈ check inner value)
    (hinner : inner.schema = segment :: place.schema) :
    place.schema.reverse <+: violation.schemaPath :=
  (List.prefix_append _ _).trans (h.below hv hinner)

end Check

/-- All checks of a value stay below their places. -/
structure Checks.Stay (checks : Checks) : Prop where
  whole : checks.whole.Stays
  named : ∀ named ∈ checks.named, named.2.Stays
  items : ∀ item ∈ checks.items, item.Stays

namespace Keyword

open Check

/-! ## Simple keywords -/

theorem stays_checkType (types : Json) : (checkType types).Stays := by
  intro place value violation h
  rw [checkType.eq_def] at h
  split at h
  · exact stays_require _ _ _ _ _ h
  · split at h
    · exact stays_require _ _ _ _ _ h
    · exact stays_require _ _ _ _ _ h
  · cases h

theorem stays_checkNumber (bound : Json) (holds : Ordering → Bool) (breach : Json → Breach) :
    (checkNumber bound holds breach).Stays := by
  intro place value violation h
  rw [checkNumber.eq_def] at h
  split at h
  · exact stays_require _ _ _ _ _ h
  · cases h

theorem stays_checkMultiple (divisor : Json) : (checkMultiple divisor).Stays := by
  intro place value violation h
  rw [checkMultiple.eq_def] at h
  split at h
  · exact stays_require _ _ _ _ _ h
  · cases h

theorem stays_checkCount (count : Json → Option Nat) (bound : Json) (holds : Nat → Nat → Bool)
    (breach : Nat → Breach) : (checkCount count bound holds breach).Stays := by
  intro place value violation h
  rw [checkCount.eq_def] at h
  split at h
  · exact stays_require _ _ _ _ _ h
  · cases h

theorem stays_checkPattern (pattern : String) : (checkPattern pattern).Stays := by
  rw [checkPattern]
  split
  · intro place value violation h
    simp only at h
    split at h
    · exact stays_require _ _ _ _ _ h
    · cases h
  · exact stays_nil

theorem stays_checkRequired (names : Json) : (checkRequired names).Stays := by
  intro place value violation h
  rw [checkRequired.eq_def] at h
  split at h
  · obtain ⟨name, -, h⟩ := List.mem_flatMap.1 h
    exact stays_require _ _ _ _ _ h
  · cases h

/-! ## Properties -/

theorem stays_checkProperties {named : List (String × Check)}
    (hnamed : ∀ check ∈ named, check.2.Stays) : (checkProperties named).Stays := by
  intro place value violation h
  rw [checkProperties.eq_def] at h
  split at h
  · obtain ⟨⟨name, check⟩, hcheck, h⟩ := List.mem_flatMap.1 h
    simp only at h
    split at h
    · exact (hnamed _ hcheck).of_below h rfl
    · cases h
  · cases h

theorem stays_patternChecks {keywords : List Keyword} (hkeywords : ∀ k ∈ keywords, k.checks.Stay) :
    ∀ pattern ∈ patternChecks keywords, pattern.2.2.Stays := by
  intro pattern hpattern
  rw [patternChecks] at hpattern
  split at hpattern
  · rename_i keyword hfind
    obtain ⟨⟨text, check⟩, hcheck, rfl⟩ := List.mem_map.1 hpattern
    exact (hkeywords keyword (List.mem_of_find?_eq_some hfind)).named _ hcheck
  · cases hpattern

theorem stays_checkPatterns {patterns : List (String × Option Pattern × Check)}
    (hpatterns : ∀ pattern ∈ patterns, pattern.2.2.Stays) : (checkPatterns patterns).Stays := by
  intro place value violation h
  rw [checkPatterns.eq_def] at h
  split at h
  · obtain ⟨⟨text, pattern, check⟩, hpattern, h⟩ := List.mem_flatMap.1 h
    obtain ⟨⟨name, child⟩, -, h⟩ := List.mem_flatMap.1 h
    exact (hpatterns _ hpattern).of_below h rfl
  · cases h

theorem stays_checkNames (schema : Json) {check : Check} (hcheck : check.Stays) :
    (checkNames schema check).Stays := by
  intro place value violation h
  rw [checkNames.eq_def] at h
  split at h
  · split at h
    · cases h
    · exact stays_fail _ _ _ _ h
  · obtain ⟨⟨name, child⟩, -, h⟩ := List.mem_flatMap.1 h
    exact hcheck _ _ _ h
  · cases h

theorem stays_checkDependencies (schema : Json) {named : List (String × Check)}
    (hnamed : ∀ check ∈ named, check.2.Stays) : (checkDependencies schema named).Stays := by
  intro place value violation h
  rw [checkDependencies.eq_def] at h
  split at h
  · obtain ⟨⟨⟨name, dependency⟩, other, check⟩, hmem, h⟩ := List.mem_flatMap.1 h
    simp only at h
    split at h
    · split at h
      · exact stays_checkRequired _ _ _ _ h
      · exact (hnamed _ (List.of_mem_zip hmem).2).of_below h rfl
    · cases h
  · cases h

/-! ## Items -/

theorem stays_checkItems (schema : Json) {checks : Checks} (hchecks : checks.Stay) :
    (checkItems schema checks).Stays := by
  intro place value violation h
  rw [checkItems.eq_def] at h
  split at h
  · obtain ⟨⟨⟨i, item⟩, check⟩, hmem, h⟩ := List.mem_flatMap.1 h
    exact (hchecks.items _ (List.of_mem_zip hmem).2).of_below h rfl
  · obtain ⟨⟨i, item⟩, -, h⟩ := List.mem_flatMap.1 h
    exact hchecks.whole (place.inValue i) item violation h
  · cases h

theorem stays_checkAdditionalItems (keywords : List Keyword) (schema : Json) {check : Check}
    (hcheck : check.Stays) : (checkAdditionalItems keywords schema check).Stays := by
  intro place value violation h
  rw [checkAdditionalItems.eq_def] at h
  split at h
  · split at h
    · exact stays_require _ _ _ _ _ h
    · obtain ⟨⟨i, item⟩, -, h⟩ := List.mem_flatMap.1 h
      exact hcheck (place.inValue i) item violation h
    · cases h
  · cases h

theorem stays_checkContains (check : Check) : (checkContains check).Stays := by
  intro place value violation h
  rw [checkContains.eq_def] at h
  split at h
  · exact stays_require _ _ _ _ _ h
  · cases h

/-! ## Combinations -/

theorem stays_checkAll {checks : List Check} (hchecks : ∀ check ∈ checks, check.Stays) :
    (checkAll checks).Stays := by
  intro place value violation h
  obtain ⟨⟨check, i⟩, hmem, h⟩ := List.mem_flatMap.1 h
  exact (hchecks check (List.fst_mem_of_mem_zipIdx hmem)).of_below h rfl

theorem stays_checkOne (checks : List Check) : (checkOne checks).Stays := by
  intro place value violation h
  rw [checkOne] at h
  split at h
  · exact stays_fail _ _ _ _ h
  · cases h
  · exact stays_fail _ _ _ _ h

/-! ## All keywords -/

/-- What a keyword finds lies below its own name. What stands beside `additionalProperties` is found
by it in the place of those keywords, and what `if` demands stands beside it. -/
def StartsWith (keyword first : String) : Prop :=
  first = keyword ∨
    keyword = "additionalProperties" ∧ (first = "properties" ∨ first = "patternProperties") ∨
    keyword = "if" ∧ (first = "then" ∨ first = "else")

theorem starts_checkIf {keywords : List Keyword} (hkeywords : ∀ k ∈ keywords, k.checks.Stay)
    {condition : Check} {place : Place} {value : Json} {violation : Violation}
    (h : violation ∈ checkIf keywords condition place value) :
    ∃ first, (first = "then" ∨ first = "else") ∧
      place.schema.reverse ++ [first] <+: violation.schemaPath := by
  have hbranch : ∀ name keyword, find? keywords name = some keyword →
      violation ∈ keyword.checks.whole (place.inSchema name) value →
      place.schema.reverse ++ [name] <+: violation.schemaPath := fun name keyword hfind hfound =>
    (hkeywords keyword (List.mem_of_find?_eq_some hfind)).whole.below hfound rfl
  simp only [checkIf] at h
  split at h
  · split at h
    · rename_i keyword hfind
      exact ⟨"then", Or.inl rfl, hbranch "then" keyword hfind h⟩
    · cases h
  · split at h
    · rename_i keyword hfind
      exact ⟨"else", Or.inr rfl, hbranch "else" keyword hfind h⟩
    · cases h

/-- What is said of a property is said by its own schema or by that of a pattern. -/
theorem mem_checkNamed {named : List (String × Check)}
    {patterns : List (String × Option Pattern × Check)} {place : Place} {name : String}
    {child : Json} {violation : Violation}
    (h : violation ∈ (checkNamed named patterns place name child).1) :
    (∃ check, named.lookup name = some check ∧
      violation ∈ check (place.inSchema "properties" |>.inSchema name |>.inValue name) child) ∨
    ∃ pattern ∈ patterns, violation ∈ pattern.2.2
      (place.inSchema "patternProperties" |>.inSchema pattern.1 |>.inValue name) child := by
  rcases List.mem_append.1 h with h | h
  · split at h
    · rename_i check hlookup
      exact Or.inl ⟨check, hlookup, h⟩
    · cases h
  · obtain ⟨pattern, hpattern, h⟩ := List.mem_flatMap.1 h
    exact Or.inr ⟨pattern, (List.mem_filter.1 hpattern).1, h⟩

/-- The checks of the properties beside a keyword. -/
def namedChecks (keywords : List Keyword) : List (String × Check) :=
  ((find? keywords "properties").map (·.checks.named)).getD []

theorem stays_of_lookup {keywords : List Keyword} (hkeywords : ∀ k ∈ keywords, k.checks.Stay)
    {name : String} {check : Check} (h : (namedChecks keywords).lookup name = some check) :
    check.Stays := by
  obtain ⟨before, after, hnamed, -⟩ := List.lookup_eq_some_iff.1 h
  have hmem : (name, check) ∈ namedChecks keywords := by simp [hnamed]
  rw [namedChecks] at hmem
  cases hfind : find? keywords "properties" with
  | none =>
    rw [hfind] at hmem
    cases hmem
  | some keyword =>
    rw [hfind] at hmem
    exact (hkeywords keyword (List.mem_of_find?_eq_some hfind)).named _ hmem

/-- Where `additionalProperties` finds a violation. -/
inductive FoundAdditional (keywords : List Keyword) (place : Place) (object : Json)
    (violation : Violation) : Prop
  /-- It speaks for `properties`. -/
  | property {members : List (String × Json)} {name : String} {child : Json} {check : Check} :
    object = .obj members → (name, child) ∈ members →
    (namedChecks keywords).lookup name = some check →
    violation ∈ check (place.inSchema "properties" |>.inSchema name |>.inValue name) child →
    FoundAdditional keywords place object violation
  /-- It speaks for `patternProperties` or for itself. -/
  | other {first : String} : first = "patternProperties" ∨ first = "additionalProperties" →
    place.schema.reverse ++ [first] <+: violation.schemaPath →
    FoundAdditional keywords place object violation

section Additional

variable {keywords : List Keyword} {place : Place} {violation : Violation}

theorem found_of_checkNamed (hkeywords : ∀ k ∈ keywords, k.checks.Stay)
    {members : List (String × Json)} {name : String} {child : Json} (hmem : (name, child) ∈ members)
    (h : violation ∈
      (checkNamed (namedChecks keywords) (patternChecks keywords) place name child).1) :
    FoundAdditional keywords place (.obj members) violation := by
  rcases mem_checkNamed h with ⟨check, hlookup, hv⟩ | ⟨pattern, hpattern, hv⟩
  · exact FoundAdditional.property rfl hmem hlookup hv
  · refine FoundAdditional.other (Or.inl rfl) ?_
    have hbelow := (stays_patternChecks hkeywords pattern hpattern).of_below hv
      (show _ = pattern.1 :: (place.inSchema "patternProperties").schema from rfl)
    rw [← List.reverse_cons]
    exact hbelow

theorem found_of_own {check : Check} (hcheck : check.Stays) {inner : Place} {object child : Json}
    (hv : violation ∈ check inner child) (hinner : inner.schema = "additionalProperties" ::
      place.schema) : FoundAdditional keywords place object violation :=
  FoundAdditional.other (Or.inr rfl) (hcheck.below hv hinner)

theorem found_of_checkAdditional (hkeywords : ∀ k ∈ keywords, k.checks.Stay) {value : Json}
    {others : Check} (hothers : others.Stays) {object : Json}
    (h : violation ∈ checkAdditional keywords value others place object) :
    FoundAdditional keywords place object violation := by
  rw [checkAdditional.eq_def] at h
  simp only at h
  split at h
  · rename_i members
    split at h
    · rcases List.mem_append.1 h with h | h
      · obtain ⟨result, hresult, h⟩ := List.mem_flatMap.1 h
        obtain ⟨⟨name, child⟩, hmem, rfl⟩ := List.mem_map.1 hresult
        exact found_of_checkNamed hkeywords hmem h
      · exact found_of_own (stays_require _ _) h rfl
    · split at h
      · rename_i name child rest
        exact found_of_own (stays_fail .refused)
          (show violation ∈ fail .refused (place.inSchema "additionalProperties") child from h) rfl
      · cases h
  · rename_i members _
    obtain ⟨⟨name, child⟩, hmem, h⟩ := List.mem_flatMap.1 h
    simp only at h
    split at h
    · exact found_of_checkNamed hkeywords hmem h
    · exact found_of_own hothers h rfl
  · cases h

/-- What it finds lies below its own name or below one that it speaks for. -/
theorem FoundAdditional.starts (hkeywords : ∀ k ∈ keywords, k.checks.Stay) {object : Json}
    (h : FoundAdditional keywords place object violation) :
    ∃ first, StartsWith "additionalProperties" first ∧
      place.schema.reverse ++ [first] <+: violation.schemaPath := by
  cases h with
  | @property members name child check hobject hmem hlookup hv =>
    have hbelow := (stays_of_lookup hkeywords hlookup).of_below hv
      (show _ = name :: (place.inSchema "properties").schema from rfl)
    refine ⟨"properties", Or.inr (Or.inl ⟨rfl, Or.inl rfl⟩), ?_⟩
    rw [← List.reverse_cons]
    exact hbelow
  | @other first hfirst hbelow =>
    refine ⟨first, ?_, hbelow⟩
    rcases hfirst with rfl | rfl
    · exact Or.inr (Or.inl ⟨rfl, Or.inr rfl⟩)
    · exact Or.inl rfl

end Additional

/-- **A keyword finds violations under its own name only**, or under those that it speaks for. -/
theorem starts_check {keywords : List Keyword} (hkeywords : ∀ k ∈ keywords, k.checks.Stay)
    {keyword : Keyword} (hkeyword : keyword.checks.Stay) {place : Place} {value : Json}
    {violation : Violation} (h : violation ∈ check keywords keyword place value) :
    ∃ first, StartsWith keyword.name first ∧
      place.schema.reverse ++ [first] <+: violation.schemaPath := by
  have own : ∀ {check : Check}, check.Stays →
      violation ∈ check (place.inSchema keyword.name) value →
      ∃ first, StartsWith keyword.name first ∧
        place.schema.reverse ++ [first] <+: violation.schemaPath :=
    fun hcheck hv => ⟨keyword.name, Or.inl rfl, hcheck.below hv rfl⟩
  rw [check.eq_def] at h
  simp only at h
  split at h
  · exact own (stays_checkType _) h
  · exact own (stays_require _ _) h
  · exact own (stays_require _ _) h
  · exact own (stays_checkNumber _ _ _) h
  · exact own (stays_checkNumber _ _ _) h
  · exact own (stays_checkNumber _ _ _) h
  · exact own (stays_checkNumber _ _ _) h
  · exact own (stays_checkMultiple _) h
  · exact own (stays_checkCount _ _ _ _) h
  · exact own (stays_checkCount _ _ _ _) h
  · exact own (stays_checkPattern _) h
  · exact own (stays_checkCount _ _ _ _) h
  · exact own (stays_checkCount _ _ _ _) h
  · exact own (stays_checkCount _ _ _ _) h
  · exact own (stays_checkCount _ _ _ _) h
  · split at h
    · exact own (stays_require _ _) h
    · cases h
  · exact own (stays_checkRequired _) h
  · split at h
    · cases h
    · exact own (stays_checkProperties hkeyword.named) h
  · split at h
    · cases h
    · exact own (stays_checkPatterns (stays_patternChecks hkeywords)) h
  · rename_i hname
    rw [hname]
    exact (found_of_checkAdditional hkeywords hkeyword.whole h).starts hkeywords
  · exact own (stays_checkNames _ hkeyword.whole) h
  · exact own (stays_checkDependencies _ hkeyword.named) h
  · exact own (stays_checkItems _ hkeyword) h
  · exact own (stays_checkAdditionalItems _ _ hkeyword.whole) h
  · exact own (stays_checkContains _) h
  · exact own (stays_checkAll hkeyword.items) h
  · exact own (stays_require _ _) h
  · exact own (stays_checkOne _) h
  · exact own (stays_require _ _) h
  · rename_i hname
    obtain ⟨first, hfirst, hbelow⟩ := starts_checkIf hkeywords h
    exact ⟨first, Or.inr (Or.inr ⟨hname, hfirst⟩), hbelow⟩
  · cases h

/-- What all keywords of a schema find lies below the place of the schema. -/
theorem stays_checkAllOf {keywords : List Keyword} (hkeywords : ∀ k ∈ keywords, k.checks.Stay) :
    (checkAllOf keywords).Stays := by
  intro place value violation h
  obtain ⟨keyword, hkeyword, h⟩ := List.mem_flatMap.1 h
  obtain ⟨first, -, hbelow⟩ := starts_check hkeywords (hkeywords keyword hkeyword) h
  exact (List.prefix_append _ _).trans hbelow

end Keyword

/-! ## Schemas -/

namespace Checks

theorem stay_of_whole {check : Check} (h : check.Stays) : Checks.Stay ⟨check, [], []⟩ :=
  ⟨h, List.forall_mem_nil _, List.forall_mem_nil _⟩

mutual

/-- **The checks of a schema find violations below its place only.** -/
theorem stay_ofJson : ∀ schema : Json, (ofJson schema).Stay
  | .obj members => by
    have hkeywords := stay_ofMembers members
    rw [ofJson]
    refine ⟨Keyword.stays_checkAllOf hkeywords, fun named hnamed => ?_, List.forall_mem_nil _⟩
    obtain ⟨keyword, hkeyword, rfl⟩ := List.mem_map.1 hnamed
    exact (hkeywords keyword hkeyword).whole
  | .arr items => by
    rw [ofJson]
    exact ⟨Check.stays_nil, List.forall_mem_nil _, stays_ofItems items⟩
  | .bool true | .null | .num _ | .str _ => by
    rw [ofJson.eq_def]
    exact stay_of_whole Check.stays_nil
  | .bool false => by
    rw [ofJson]
    exact stay_of_whole (Check.stays_fail _)

theorem stays_ofItems : ∀ items : List Json, ∀ check ∈ ofItems items, check.Stays
  | [], _, h => by cases h
  | item :: rest, check, h => by
    rw [ofItems] at h
    rcases List.mem_cons.1 h with rfl | h
    · exact (stay_ofJson item).whole
    · exact stays_ofItems rest check h

theorem stay_ofMembers : ∀ members : List (String × Json), ∀ keyword ∈ ofMembers members,
    keyword.checks.Stay
  | [], _, h => by cases h
  | (name, value) :: rest, keyword, h => by
    rw [ofMembers] at h
    rcases List.mem_cons.1 h with rfl | h
    · exact stay_ofJson value
    · exact stay_ofMembers rest keyword h

end

end Checks

end TableExport
