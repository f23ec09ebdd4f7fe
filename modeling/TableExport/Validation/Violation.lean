import TableExport.Json.Printer
import TableExport.Schema.Pointer

/-!
# Violations of a schema

A place where a value breaks its schema: the path to the value, the path to the keyword that it
breaks, and what is wrong.

* `Breach.message` says in words what is wrong with a value.
* `Violation.line` is the line of a report.
-/

namespace TableExport

/-- What is wrong with a value. -/
inductive Breach
  | notOfType (type : String)
  | notOfTypes (types : List String)
  | notOneOf (options : Json)
  | notConstant (expected : Json)
  | missingProperty (name : String)
  | belowMinimum (limit : Json)
  | aboveMaximum (limit : Json)
  | notAboveMinimum (limit : Json)
  | notBelowMaximum (limit : Json)
  | notMultipleOf (divisor : Json)
  | tooShort (limit : Nat)
  | tooLong (limit : Nat)
  | mismatch (pattern : String)
  | tooFewItems (limit : Nat)
  | tooManyItems (limit : Nat)
  | tooFewProperties (limit : Nat)
  | tooManyProperties (limit : Nat)
  | repeatedItems
  | unexpectedProperties (names : List String)
  | unexpectedItems (items : List Json)
  | refused
  | noneOf (keyword : String)
  | severalOf (keyword : String)
  | matchesRefused (schema : Json)
  | nothingContained

namespace Breach

/-- A number of things with the right form of their name. -/
def counted (count : Nat) (one many : String) : String :=
  toString count ++ " " ++ if count = 1 then one else many

/-- The end of a list of unexpected things. -/
def unexpected (parts : List String) : String :=
  ", ".intercalate parts ++ if parts.length = 1 then " was unexpected)" else " were unexpected)"

/-- What is wrong with `value`, in words. -/
def message (value : Json) : Breach → String
  | .notOfType type => value.compact ++ " is not of type \"" ++ type ++ "\""
  | .notOfTypes types =>
    value.compact ++ " is not of types " ++
      ", ".intercalate (types.map fun type => "\"" ++ type ++ "\"")
  | .notOneOf options => value.compact ++ " is not one of " ++ options.compact
  | .notConstant expected => expected.compact ++ " was expected"
  | .missingProperty name => Json.quote name ++ " is a required property"
  | .belowMinimum limit => value.compact ++ " is less than the minimum of " ++ limit.compact
  | .aboveMaximum limit => value.compact ++ " is greater than the maximum of " ++ limit.compact
  | .notAboveMinimum limit =>
    value.compact ++ " is less than or equal to the minimum of " ++ limit.compact
  | .notBelowMaximum limit =>
    value.compact ++ " is greater than or equal to the maximum of " ++ limit.compact
  | .notMultipleOf divisor => value.compact ++ " is not a multiple of " ++ divisor.compact
  | .tooShort limit =>
    value.compact ++ " is shorter than " ++ counted limit "character" "characters"
  | .tooLong limit => value.compact ++ " is longer than " ++ counted limit "character" "characters"
  | .mismatch pattern => value.compact ++ " does not match \"" ++ pattern ++ "\""
  | .tooFewItems limit => value.compact ++ " has less than " ++ counted limit "item" "items"
  | .tooManyItems limit => value.compact ++ " has more than " ++ counted limit "item" "items"
  | .tooFewProperties limit =>
    value.compact ++ " has less than " ++ counted limit "property" "properties"
  | .tooManyProperties limit =>
    value.compact ++ " has more than " ++ counted limit "property" "properties"
  | .repeatedItems => value.compact ++ " has non-unique elements"
  | .unexpectedProperties names =>
    "Additional properties are not allowed (" ++
      unexpected (names.map fun name => "'" ++ name ++ "'")
  | .unexpectedItems items =>
    "Additional items are not allowed (" ++ unexpected (items.map Json.compact)
  | .refused => "False schema does not allow " ++ value.compact
  | .noneOf keyword =>
    value.compact ++ " is not valid under any of the schemas listed in the '" ++ keyword ++
      "' keyword"
  | .severalOf keyword =>
    value.compact ++ " is valid under more than one of the schemas listed in the '" ++ keyword ++
      "' keyword"
  | .matchesRefused schema => schema.compact ++ " is not allowed for " ++ value.compact
  | .nothingContained => "None of " ++ value.compact ++ " are valid under the given schema"

end Breach

/-- A place where a value breaks its schema. The paths lead to the value and to the keyword. -/
structure Violation where
  instancePath : List String
  schemaPath : List String
  value : Json
  breach : Breach

namespace Violation

/-- A path as a pointer. -/
def pointer (path : List String) : String :=
  String.join (path.map fun segment => "/" ++ Pointer.escape segment)

/-- What is wrong, in words. -/
def message (violation : Violation) : String := violation.breach.message violation.value

/-- The line of a report. -/
def line (violation : Violation) : String :=
  let place :=
    if violation.instancePath.isEmpty then "(root)" else pointer violation.instancePath
  "  " ++ place ++ ": " ++ violation.message

end Violation

end TableExport
