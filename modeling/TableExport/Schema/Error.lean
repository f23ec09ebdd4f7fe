import TableExport.Json.Basic

/-!
# Failures of reading a schema

A document may be unreadable or misshapen, a reference may lead nowhere or in a circle, and a schema
may describe what no table can hold.
-/

namespace TableExport

/-- What is wrong with the shape of a schema. -/
inductive ShapeFault
  | notObject
  | badType
  | badChildren (keyword : String)
  | badItems
  deriving DecidableEq

/-- Why a schema cannot be used. -/
inductive SchemaError
  | unreadable (document : String)
  /-- The schema at a pointer of a document is misshapen. -/
  | misshapen (document pointer : String) (fault : ShapeFault)
  | invalidReference (reference : String)
  | missingPath (reference segment : String)
  | circularReference (chain : List String)
  | nestedArray (path : String)
  | unknownKind (path kind : String)
  | emptyObject (path : String)
  | invalidTableRoot (kind : String)
  deriving DecidableEq

/-- The fault of the shape at a location in words. -/
def ShapeFault.message (location : String) : ShapeFault → String
  | .notObject => location ++ " must be an object"
  | .badType => "'type' at " ++ location ++ " must be a string or an array of strings"
  | .badChildren keyword => "'" ++ keyword ++ "' at " ++ location ++ " must be an object"
  | .badItems => "'items' at " ++ location ++ " must be an object or a boolean"

/-- The failure in words. -/
def SchemaError.message : SchemaError → String
  | .unreadable document => "Cannot read schema document '" ++ document ++ "'"
  | .misshapen document pointer fault =>
    let location := if pointer.isEmpty then "document root" else pointer
    "Invalid schema document '" ++ document ++ "': " ++ fault.message location
  | .invalidReference reference => "Invalid reference '" ++ reference ++ "'"
  | .missingPath reference segment =>
    "Reference '" ++ reference ++ "' points to a missing node '" ++ segment ++ "'"
  | .circularReference chain => "Circular reference: " ++ " -> ".intercalate chain
  | .nestedArray path => "Field '" ++ path ++ "' is an array of arrays"
  | .unknownKind path kind => "Field '" ++ path ++ "' has unsupported type '" ++ kind ++ "'"
  | .emptyObject path => "Field '" ++ path ++ "' is an object without properties"
  | .invalidTableRoot kind =>
    "Table schema must be an object or an array of objects, found '" ++ kind ++ "'"

end TableExport
