import TableExport.Schema.Error

/-!
# Shape of a schema document

The keywords that references and type trees rely on must have the right kind of value, in the
document and in the schemas below `properties`, `definitions`, `$defs` and `items`. What stands
elsewhere is not looked at.

* `Shape.check` finds the first fault of a document.
-/

namespace TableExport.Shape

/-- Whether a value of `type` is a name or a list of names. -/
def isTypeValue : Json → Bool
  | .str _ => true
  | .arr names => names.all fun name => name.str?.isSome
  | _ => false

/-- Checks `type` at a pointer. -/
def checkType (document pointer : String) (members : Entries Json) : Except SchemaError Unit :=
  match members.get? "type" with
  | some value =>
    if isTypeValue value then .ok () else .error (.misshapen document pointer .badType)
  | none => .ok ()

mutual

/-- Checks the schema at a pointer. Only below the root may a schema be a truth value. -/
def checkAt (document pointer : String) : Json → Except SchemaError Unit
  | .obj members => do
    checkType document pointer members
    checkKeyword document pointer "properties" members
    checkKeyword document pointer "definitions" members
    checkKeyword document pointer "$defs" members
    checkItems document pointer members
  | .bool _ =>
    if pointer.isEmpty then .error (.misshapen document pointer .notObject) else .ok ()
  | _ => .error (.misshapen document pointer .notObject)

/-- Checks the schemas below a keyword that holds named schemas. -/
def checkKeyword (document pointer keyword : String) :
    List (String × Json) → Except SchemaError Unit
  | [] => .ok ()
  | (name, value) :: rest =>
    if name = keyword then
      match value with
      | .obj children => checkChildren document (pointer ++ "/" ++ keyword) children
      | _ => .error (.misshapen document pointer (.badChildren keyword))
    else checkKeyword document pointer keyword rest

/-- Checks named schemas in order. -/
def checkChildren (document pointer : String) : List (String × Json) → Except SchemaError Unit
  | [] => .ok ()
  | (name, child) :: rest => do
    checkAt document (pointer ++ "/" ++ name) child
    checkChildren document pointer rest

/-- Checks the schema below `items`. -/
def checkItems (document pointer : String) : List (String × Json) → Except SchemaError Unit
  | [] => .ok ()
  | (name, value) :: rest =>
    if name = "items" then
      match value with
      | .obj members => checkAt document (pointer ++ "/items") (.obj members)
      | .bool _ => .ok ()
      | _ => .error (.misshapen document pointer .badItems)
    else checkItems document pointer rest

end

/-- Checks a document. -/
def check (document : String) (schema : Json) : Except SchemaError Unit :=
  checkAt document "" schema

end TableExport.Shape
