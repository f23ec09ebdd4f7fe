import TableExport.Validation.Check

/-!
# Well-formed schemas

A schema is a truth value or an object whose keywords have values of the right kind, as the
meta-schema of draft 7 says; its patterns can be read. What is no keyword may have any value.

* `Schema.isWellFormed` checks a schema with all schemas in it.
-/

namespace TableExport.Schema

/-- Whether a value is a text. -/
def isText (value : Json) : Bool := value.str?.isSome

/-- Whether a value is a number. -/
def isNumber : Json → Bool
  | .num _ => true
  | _ => false

/-- Whether a value is a truth value. -/
def isBool (value : Json) : Bool := value.bool?.isSome

/-- Whether a value is a natural number. -/
def isCount : Json → Bool
  | .num n => n.isInteger && n.compare (.int 0) != .lt
  | _ => false

/-- Whether a value is a list of distinct texts. -/
def isTextList : Json → Bool
  | .arr items => items.all isText && Json.allDistinct items
  | _ => false

/-- Whether a value names a type. -/
def isTypeName (value : Json) : Bool := (value.str?.map Keyword.typeOrder.contains).getD false

/-- Whether a value is a type or a list of distinct types. -/
def isType : Json → Bool
  | .arr items => !items.isEmpty && items.all isTypeName && Json.allDistinct items
  | value => isTypeName value

/-- Whether a value is a pattern that can be read. -/
def isPattern (value : Json) : Bool :=
  (value.str?.map fun text => (Pattern.ofString? text).isSome).getD false

/-- Whether a value is an array. -/
def isArray (value : Json) : Bool := value.arr?.isSome

/-- Whether the value of a keyword that holds no schemas is of the right kind. -/
def isPlainValue (keyword : String) (value : Json) : Bool :=
  if ["$id", "$schema", "$ref", "$comment", "title", "description", "format",
      "contentMediaType", "contentEncoding"].contains keyword then isText value
  else if ["readOnly", "writeOnly", "uniqueItems"].contains keyword then isBool value
  else if ["maximum", "minimum", "exclusiveMaximum", "exclusiveMinimum"].contains keyword then
    isNumber value
  else if ["maxLength", "minLength", "maxItems", "minItems", "maxProperties",
      "minProperties"].contains keyword then isCount value
  else if ["examples", "enum"].contains keyword then isArray value
  else if keyword = "multipleOf" then
    match value with
    | .num n => n.compare (.int 0) == .gt
    | _ => false
  else if keyword = "pattern" then isPattern value
  else if keyword = "required" then isTextList value
  else if keyword = "type" then isType value
  else true

/-- The keywords whose value is a schema. -/
def schemaKeywords : List String :=
  ["additionalItems", "additionalProperties", "contains", "propertyNames", "if", "then", "else",
    "not"]

/-- The keywords whose value is a list of schemas. -/
def listKeywords : List String := ["allOf", "anyOf", "oneOf"]

/-- The keywords whose value holds schemas by name. -/
def namedKeywords : List String := ["definitions", "properties", "patternProperties"]

mutual

/-- Whether a schema is well-formed. -/
def isWellFormed : Json → Bool
  | .bool _ => true
  | .obj members => areKeywords members
  | _ => false

/-- Whether the keywords of a schema have values of the right kind. -/
def areKeywords : List (String × Json) → Bool
  | [] => true
  | (keyword, value) :: rest =>
    (if schemaKeywords.contains keyword then isWellFormed value
    else if listKeywords.contains keyword then
      match value with
      | .arr items => !items.isEmpty && areSchemas items
      | _ => false
    else if keyword = "items" then
      match value with
      | .arr items => !items.isEmpty && areSchemas items
      | .obj members => areKeywords members
      | .bool _ => true
      | _ => false
    else if namedKeywords.contains keyword then
      match value with
      | .obj named =>
        areNamed named &&
          (keyword != "patternProperties" || named.all fun pair => isPattern (.str pair.1))
      | _ => false
    else if keyword = "dependencies" then
      match value with
      | .obj named => areDependencies named
      | _ => false
    else isPlainValue keyword value) && areKeywords rest

/-- Whether all items of a list are well-formed schemas. -/
def areSchemas : List Json → Bool
  | [] => true
  | item :: rest => isWellFormed item && areSchemas rest

/-- Whether all members of an object are well-formed schemas. -/
def areNamed : List (String × Json) → Bool
  | [] => true
  | (_, value) :: rest => isWellFormed value && areNamed rest

/-- Whether all members of an object are schemas or lists of names. -/
def areDependencies : List (String × Json) → Bool
  | [] => true
  | (_, value) :: rest =>
    (match value with
      | .arr items => isTextList (.arr items)
      | .obj members => areKeywords members
      | .bool _ => true
      | _ => false) && areDependencies rest

end

end TableExport.Schema
