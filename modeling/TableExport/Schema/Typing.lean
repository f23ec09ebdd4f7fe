import TableExport.Schema.Resolution
import TableExport.TypeTree

/-!
# Type trees of schemas

A schema with properties is a composite, one with items an array of what its items are, and one with
a scalar type a leaf. References are followed on the way, and a type that holds itself is refused.

* `schemaKind?` is the kind that a schema declares.
* `Library.typeNode` is the tree of one schema.
* `Library.tableRoot` is the tree of a table.
-/

namespace TableExport

/-- The declared kind of a schema: its type, of a list of types the first that is not `null`, and
without a type whatever it has properties or items for. -/
def schemaKind? (schema : Json) : Option String :=
  match schema.get? "type" with
  | some (.str kind) => some kind
  | some (.arr kinds) => (kinds.filterMap Json.str?).find? (· != "null")
  | _ =>
    if (schema.get? "properties").isSome then some "object"
    else if (schema.get? "items").isSome then some "array"
    else none

/-- The description of a schema. -/
def description? (schema : Json) : Option String := (schema.get? "description").bind Json.str?

/-- The texts that a schema admits. -/
def enumValues (schema : Json) : List String :=
  (((schema.get? "enum").bind Json.arr?).getD []).filterMap Json.str?

/-- The schema of the items of an array, which admits anything when it is missing. -/
def itemSchema (schema : Json) : Json := (schema.get? "items").getD (.bool true)

/-- The properties of an object, if it has any. -/
def properties? (schema : Json) : Option (Entries Json) :=
  ((schema.get? "properties").bind Json.obj?).filter (!·.isEmpty)

namespace Library

variable {m : Type → Type} [Monad m] [MonadExceptOf SchemaError m] (library : Library m)

/-- Applies `build` to each field of an object with its path. -/
def buildMembers (build : String → Json → String → m TypeTree) (path : String) :
    List (String × Json) → m (List TypeTree)
  | [] => return []
  | (name, schema) :: rest => do
    let member ← build name schema (TypeTree.joinPath path name)
    return member :: (← buildMembers build path rest)

/-- The composite of an object schema, where `build` makes the trees of its fields. -/
def buildObject (build : String → Json → String → m TypeTree) (name : String) (schema : Json)
    (path : String) : m TypeTree :=
  match properties? schema with
  | none => throw (.emptyObject (if path.isEmpty then TypeTree.rootName else path))
  | some properties => do
    let members ← buildMembers build path properties
    let isStruct := ((schema.get? "x-struct").bind Json.bool?).getD false
    return .composite { name, isStruct } members

/-- The array whose elements have a type. The array's own description comes first. -/
def arrayOf (element : TypeTree) (schema : Json) (path : String) : m TypeTree :=
  if element.isArray then throw (.nestedArray path)
  else
    let description := (description? schema).or element.field.description
    return element.withField { element.field with isArray := true, description }

/-- The node with what its schema says about it. -/
def describe (node : TypeTree) (resolved : Resolved) : TypeTree :=
  node.withField { node.field with
    description := description? resolved.schema
    typeName := resolved.reference.map displayName
    enumValues := enumValues resolved.schema }

/-- The tree of a node that lies at most `depth` nodes deep. -/
def buildWithin (depth : Nat) (name document : String) (schema : Json) (path : String)
    (active : List String) : m TypeTree :=
  match depth with
  | 0 => throw (.circularReference active)
  | depth + 1 => do
    let resolved ← library.enter document schema active
    let active := active ++ resolved.chain
    match schemaKind? resolved.schema with
    | some "array" =>
      let element ←
        buildWithin depth name resolved.document (itemSchema resolved.schema) path active
      arrayOf element resolved.schema path
    | some "object" =>
      let node ← buildObject
        (fun name schema path => buildWithin depth name resolved.document schema path active)
        name resolved.schema path
      return describe node resolved
    | some kind =>
      match ScalarType.ofName? kind with
      | some type => return describe (.leaf { name } type) resolved
      | none => throw (.unknownKind path kind)
    | none => throw (.unknownKind path "untyped")

/-- The tree of a schema with a name. -/
def typeNode (name document : String) (schema : Json) : m TypeTree :=
  library.buildWithin library.bound name document schema name []

/-- The schema of a row: the schema of the table if it is an object, its items if it is an array of
objects. -/
def rowSchema (document : String) (schema : Json) : m Resolved := do
  let resolved ← library.resolve document schema
  match schemaKind? resolved.schema with
  | some "object" => return resolved
  | some "array" =>
    let items ← library.resolve resolved.document (itemSchema resolved.schema)
    match schemaKind? items.schema with
    | some "object" => return items
    | kind => throw (.invalidTableRoot ("array of " ++ kind.getD "unknown"))
  | kind => throw (.invalidTableRoot (kind.getD "unknown"))

/-- The tree of a table, whose root is the array of its rows. -/
def tableRoot (document : String) (schema : Json) : m TypeTree := do
  let row ← library.rowSchema document schema
  let root ← buildObject
    (fun name schema path => library.buildWithin library.bound name row.document schema path [])
    TypeTree.rootName row.schema ""
  let description := (description? row.schema).or (description? schema)
  return root.withField { root.field with isArray := true, description }

end Library

end TableExport
