import TableExport.Json.Compare
import TableExport.Pattern.Reader
import TableExport.Validation.Violation

/-!
# Checking values against a schema

A schema in the sense of draft 7 becomes a check, which lists what is wrong with a value. Violations
come in the order of the keywords of the schema, and for each keyword in the order of its
properties or of the items of the value. Where `additionalProperties` restricts the properties that
are not named, it speaks for `properties` and `patternProperties` too and goes by the order of the
value.

The checks of all parts of a schema are built first (`Checks.ofJson`), since a keyword may need the
parts of the keywords beside it; what a keyword means is said by `Keyword.check` alone.

`format`, `contentEncoding` and `contentMediaType` are passed over: whether a text has the form that
they name is not checked. Neither is `$ref`, since schemas are checked with their references
replaced.
-/

namespace TableExport

/-- The paths to a schema and to a value, each from the last segment to the first. -/
structure Place where
  schema : List String
  value : List String

namespace Place

/-- The place inside the schema. -/
def inSchema (place : Place) (segment : String) : Place :=
  { place with schema := segment :: place.schema }

/-- The place inside the value. -/
def inValue (place : Place) (segment : String) : Place :=
  { place with value := segment :: place.value }

end Place

/-- What is wrong with a value at a place. -/
abbrev Check := Place → Json → List Violation

namespace Check

/-- One violation. -/
def fail (breach : Breach) : Check := fun place value =>
  [⟨place.value.reverse, place.schema.reverse, value, breach⟩]

/-- A violation unless a condition holds. -/
def require (condition : Bool) (breach : Breach) : Check :=
  if condition then fun _ _ => [] else fail breach

/-- Whether a check finds nothing wrong. -/
def accepts (check : Check) (value : Json) : Bool := (check ⟨[], []⟩ value).isEmpty

end Check

/-- The checks of a value of a schema: as a schema, of its members as schemas by name, and of its
items as schemas. -/
structure Checks where
  whole : Check
  named : List (String × Check)
  items : List Check

/-- A keyword of a schema with its value and the checks of it. -/
structure Keyword where
  name : String
  value : Json
  checks : Checks

namespace Keyword

/-- The keyword with a name among those of a schema. -/
def find? (keywords : List Keyword) (name : String) : Option Keyword :=
  keywords.find? (·.name == name)

/-! ## Simple keywords -/

/-- Whether a value has a type. A double without a fraction is an integer. -/
def hasType (type : String) : Json → Bool
  | .null => type == "null"
  | .bool _ => type == "boolean"
  | .num n => type == "number" || (type == "integer" && n.isInteger)
  | .str _ => type == "string"
  | .arr _ => type == "array"
  | .obj _ => type == "object"

/-- The types in the order of a report. -/
def typeOrder : List String :=
  ["array", "boolean", "integer", "null", "number", "object", "string"]

/-- `type`: the value has the type, or one of several. -/
def checkType (types : Json) : Check := fun place value =>
  match types with
  | .str type => Check.require (hasType type value) (.notOfType type) place value
  | .arr list =>
    match list.filterMap Json.str? with
    | [type] => Check.require (hasType type value) (.notOfType type) place value
    | names =>
      Check.require (names.any fun type => hasType type value)
        (.notOfTypes (typeOrder.filter names.contains)) place value
  | _ => []

/-- A natural number that may be written as a double; one beyond 64 bits is cut to them. -/
def limit? : Json → Option Nat
  | .num (.int n) => some n.toNat
  | .num (.double d) =>
    if Number.isInteger (.double d) then
      some (min ((d.truncated.getD 0).toNat) Literal.maxCount)
    else none
  | _ => none

/-- A keyword that bounds a number. -/
def checkNumber (bound : Json) (holds : Ordering → Bool) (breach : Json → Breach) : Check :=
  fun place value =>
    match value, bound with
    | .num n, .num limit => Check.require (holds (n.compare limit)) (breach bound) place value
    | _, _ => []

/-- Whether the quotient of two doubles has no fraction. The fraction of a negative quotient is
negative and counts as none, and a quotient beyond the doubles is taken exactly. -/
def divides (divisor value : Binary64) : Bool :=
  let quotient := value.div divisor
  match quotient.quotient?, value.quotient?, divisor.quotient? with
  | some (num, den), _, _ => num ≤ 0 || (num.toNat % den) * Nat.pow 2 52 < den
  | none, some (a, b), some (c, d) =>
    c == 0 || (a.natAbs * d) % (b * c.natAbs) == 0
  | _, _, _ => true

/-- Whether a value is a multiple of a number. A divisor without a fraction needs an exact
multiple. -/
def isMultiple (divisor value : Number) : Bool :=
  let d := divisor.toDouble
  let v := value.toDouble
  if divisor.isInteger then
    match v.quotient?, d.quotient? with
    | some (a, b), some (c, e) => a.natAbs % b == 0 && (a.natAbs * e) % (b * c.natAbs) == 0
    | _, _ => false
  else divides d v

/-- `multipleOf`. -/
def checkMultiple (divisor : Json) : Check := fun place value =>
  match value, divisor with
  | .num v, .num d => Check.require (isMultiple d v) (.notMultipleOf divisor) place value
  | _, _ => []

/-- A keyword that bounds a count of a value that has one. -/
def checkCount (count : Json → Option Nat) (bound : Json) (holds : Nat → Nat → Bool)
    (breach : Nat → Breach) : Check := fun place value =>
  match count value, limit? bound with
  | some n, some limit => Check.require (holds n limit) (breach limit) place value
  | _, _ => []

/-- The number of characters of a text. -/
def characters (value : Json) : Option Nat := value.str?.map String.length

/-- The number of items of an array. -/
def itemCount (value : Json) : Option Nat := value.arr?.map List.length

/-- The number of properties of an object. -/
def propertyCount (value : Json) : Option Nat := value.obj?.map List.length

/-- `pattern`. -/
def checkPattern (pattern : String) : Check :=
  match Pattern.ofString? pattern with
  | some compiled => fun place value =>
    match value with
    | .str text => Check.require (compiled.occursIn text) (.mismatch pattern) place value
    | _ => []
  | none => fun _ _ => []

/-- `required`: one violation for each missing name. -/
def checkRequired (names : Json) : Check := fun place value =>
  match value, names with
  | .obj members, .arr names =>
    (names.filterMap Json.str?).flatMap fun name =>
      Check.require (Entries.get? members name).isSome (.missingProperty name) place value
  | _, _ => []

/-! ## Properties -/

/-- The patterns of `patternProperties` with their checks, each at its own place. -/
def patternChecks (keywords : List Keyword) : List (String × Option Pattern × Check) :=
  match find? keywords "patternProperties" with
  | some keyword =>
    keyword.checks.named.map fun (pattern, check) => (pattern, Pattern.ofString? pattern, check)
  | none => []

/-- Whether a pattern matches the name of a property. -/
def fits (pattern : Option Pattern) (name : String) : Bool :=
  (pattern.map (·.occursIn name)).getD false

/-- Whether `additionalProperties` speaks for the properties beside it. -/
def restrictsOthers (keywords : List Keyword) : Bool :=
  match (find? keywords "additionalProperties").map Keyword.value with
  | some (.bool false) | some (.obj _) => true
  | _ => false

/-- `properties`, in the order of the schema. -/
def checkProperties (named : List (String × Check)) : Check := fun place value =>
  match value with
  | .obj members =>
    named.flatMap fun (name, check) =>
      match Entries.get? members name with
      | some child => check (place.inSchema name |>.inValue name) child
      | none => []
  | _ => []

/-- `patternProperties`, in the order of the schema. -/
def checkPatterns (patterns : List (String × Option Pattern × Check)) : Check :=
  fun place value =>
    match value with
    | .obj members =>
      patterns.flatMap fun (text, pattern, check) =>
        (members.filter fun member => fits pattern member.1).flatMap fun (name, child) =>
          check (place.inSchema text |>.inValue name) child
    | _ => []

/-- What the sibling keywords say about one property: the violations, and whether one of them
speaks for it. -/
def checkNamed (named : List (String × Check)) (patterns : List (String × Option Pattern × Check))
    (place : Place) (name : String) (child : Json) : List Violation × Bool :=
  let own := match named.lookup name with
    | some check =>
      check (place.inSchema "properties" |>.inSchema name |>.inValue name) child
    | none => []
  let fitting := patterns.filter fun (_, pattern, _) => fits pattern name
  let others := fitting.flatMap fun (text, _, check) =>
    check (place.inSchema "patternProperties" |>.inSchema text |>.inValue name) child
  (own ++ others, (named.lookup name).isSome || !fitting.isEmpty)

/-- `additionalProperties` with the keywords beside it, in the order of the value. The place is
that of the schema itself. -/
def checkAdditional (keywords : List Keyword) (value : Json) (others : Check) : Check :=
  fun place object =>
    let named := ((find? keywords "properties").map (·.checks.named)).getD []
    let patterns := patternChecks keywords
    let restricted := (find? keywords "properties").isSome ||
      (find? keywords "patternProperties").isSome
    let own := place.inSchema "additionalProperties"
    match object, value with
    | .obj members, .bool false =>
      if restricted then
        let results := members.map fun (name, child) =>
          (name, checkNamed named patterns place name child)
        let unexpected := (results.filter fun result => !result.2.2).map Prod.fst
        results.flatMap (·.2.1) ++
          Check.require unexpected.isEmpty (.unexpectedProperties unexpected) own object
      else
        match members with
        | (_, child) :: _ =>
          [⟨own.value.reverse, own.schema.reverse, child, .refused⟩]
        | [] => []
    | .obj members, .obj _ =>
      members.flatMap fun (name, child) =>
        let (found, spoken) := checkNamed named patterns place name child
        if spoken then found else others (own.inValue name) child
    | _, _ => []

/-- `propertyNames`: the names as texts, at the place of the object. -/
def checkNames (schema : Json) (check : Check) : Check := fun place value =>
  match value, schema with
  | .obj members, .bool false =>
    if members.isEmpty then [] else Check.fail .refused place value
  | .obj members, _ => members.flatMap fun (name, _) => check place (.str name)
  | _, _ => []

/-- `dependencies`: for each property that is there, further names or a further schema. -/
def checkDependencies (schema : Json) (named : List (String × Check)) : Check :=
  fun place value =>
    match value, schema with
    | .obj members, .obj dependencies =>
      (dependencies.zip named).flatMap fun ((name, dependency), (_, check)) =>
        if (Entries.get? members name).isSome then
          match dependency with
          | .arr _ => checkRequired dependency place value
          | _ => check (place.inSchema name) value
        else []
    | _, _ => []

/-! ## Items -/

/-- The items of a list with their positions as segments. -/
def indexed (items : List Json) : List (String × Json) :=
  items.zipIdx.map fun (item, i) => (toString i, item)

/-- `items`: one schema for all items, or one for each of the first items. -/
def checkItems (schema : Json) (checks : Checks) : Check := fun place value =>
  match value, schema with
  | .arr items, .arr _ =>
    ((indexed items).zip checks.items).flatMap fun ((i, item), check) =>
      check (place.inSchema i |>.inValue i) item
  | .arr items, _ =>
    (indexed items).flatMap fun (i, item) => checks.whole (place.inValue i) item
  | _, _ => []

/-- `additionalItems`: the items after those that `items` lists. -/
def checkAdditionalItems (keywords : List Keyword) (schema : Json) (check : Check) : Check :=
  fun place value =>
    match value, (find? keywords "items").map Keyword.value with
    | .arr items, some (.arr listed) =>
      match schema with
      | .bool false =>
        Check.require (items.length ≤ listed.length)
          (.unexpectedItems (items.drop listed.length)) place value
      | .obj _ =>
        ((indexed items).drop listed.length).flatMap fun (i, item) =>
          check (place.inValue i) item
      | _ => []
    | _, _ => []

/-- `contains`: some item is accepted. -/
def checkContains (check : Check) : Check := fun place value =>
  match value with
  | .arr items => Check.require (items.any check.accepts) .nothingContained place value
  | _ => []

/-! ## Combinations -/

/-- `allOf`. -/
def checkAll (checks : List Check) : Check := fun place value =>
  checks.zipIdx.flatMap fun (check, i) => check (place.inSchema (toString i)) value

/-- `oneOf`: exactly one schema accepts the value. -/
def checkOne (checks : List Check) : Check := fun place value =>
  match (checks.filter (·.accepts value)).length with
  | 0 => Check.fail (.noneOf "oneOf") place value
  | 1 => []
  | _ => Check.fail (.severalOf "oneOf") place value

/-- `if` with what `then` or `else` beside it demand. -/
def checkIf (keywords : List Keyword) (condition : Check) : Check := fun place value =>
  let branch (name : String) : List Violation :=
    match find? keywords name with
    | some keyword => keyword.checks.whole (place.inSchema name) value
    | none => []
  if condition.accepts value then branch "then" else branch "else"

/-! ## All keywords -/

/-- What a keyword of a schema demands. The place is that of the schema. A name that is no keyword
demands nothing, and so do the keywords that are passed over. -/
def check (keywords : List Keyword) (keyword : Keyword) : Check := fun place value =>
  let schema := keyword.value
  let whole := keyword.checks.whole
  let at_ := place.inSchema keyword.name
  match keyword.name with
  | "type" => checkType schema at_ value
  | "enum" =>
    Check.require ((schema.arr?.getD []).any value.same) (.notOneOf schema) at_ value
  | "const" => Check.require (schema.same value) (.notConstant schema) at_ value
  | "minimum" => checkNumber schema (· != .lt) .belowMinimum at_ value
  | "maximum" => checkNumber schema (· != .gt) .aboveMaximum at_ value
  | "exclusiveMinimum" => checkNumber schema (· == .gt) .notAboveMinimum at_ value
  | "exclusiveMaximum" => checkNumber schema (· == .lt) .notBelowMaximum at_ value
  | "multipleOf" => checkMultiple schema at_ value
  | "minLength" => checkCount characters schema (fun n limit => limit ≤ n) .tooShort at_ value
  | "maxLength" => checkCount characters schema (fun n limit => n ≤ limit) .tooLong at_ value
  | "pattern" => checkPattern (schema.str?.getD "") at_ value
  | "minItems" => checkCount itemCount schema (fun n limit => limit ≤ n) .tooFewItems at_ value
  | "maxItems" => checkCount itemCount schema (fun n limit => n ≤ limit) .tooManyItems at_ value
  | "minProperties" =>
    checkCount propertyCount schema (fun n limit => limit ≤ n) .tooFewProperties at_ value
  | "maxProperties" =>
    checkCount propertyCount schema (fun n limit => n ≤ limit) .tooManyProperties at_ value
  | "uniqueItems" =>
    match schema, value with
    | .bool true, .arr items =>
      Check.require (Json.allDistinct items) .repeatedItems at_ value
    | _, _ => []
  | "required" => checkRequired schema at_ value
  | "properties" =>
    if restrictsOthers keywords then [] else checkProperties keyword.checks.named at_ value
  | "patternProperties" =>
    if restrictsOthers keywords then [] else checkPatterns (patternChecks keywords) at_ value
  | "additionalProperties" => checkAdditional keywords schema whole place value
  | "propertyNames" => checkNames schema whole at_ value
  | "dependencies" => checkDependencies schema keyword.checks.named at_ value
  | "items" => checkItems schema keyword.checks at_ value
  | "additionalItems" => checkAdditionalItems keywords schema whole at_ value
  | "contains" => checkContains whole at_ value
  | "allOf" => checkAll keyword.checks.items at_ value
  | "anyOf" =>
    Check.require (keyword.checks.items.any (·.accepts value)) (.noneOf "anyOf") at_ value
  | "oneOf" => checkOne keyword.checks.items at_ value
  | "not" => Check.require (!whole.accepts value) (.matchesRefused schema) at_ value
  | "if" => checkIf keywords whole place value
  | _ => []

/-- What all keywords of a schema demand. -/
def checkAllOf (keywords : List Keyword) : Check := fun place value =>
  keywords.flatMap fun keyword => check keywords keyword place value

end Keyword

namespace Checks

mutual

/-- The checks of a value of a schema. -/
def ofJson : Json → Checks
  | .obj members =>
    let keywords := ofMembers members
    ⟨Keyword.checkAllOf keywords, keywords.map fun k => (k.name, k.checks.whole), []⟩
  | .arr items => ⟨fun _ _ => [], [], ofItems items⟩
  | .bool false => ⟨Check.fail .refused, [], []⟩
  | _ => ⟨fun _ _ => [], [], []⟩

/-- The checks of the items of an array. -/
def ofItems : List Json → List Check
  | [] => []
  | item :: rest => (ofJson item).whole :: ofItems rest

/-- The keywords of a schema. -/
def ofMembers : List (String × Json) → List Keyword
  | [] => []
  | (name, value) :: rest => ⟨name, value, ofJson value⟩ :: ofMembers rest

end

end Checks

/-- What is wrong with a value under a schema. -/
def violations (schema value : Json) : List Violation :=
  (Checks.ofJson schema).whole ⟨[], []⟩ value

end TableExport
