import TableExport.Code.Declaration
import TableExport.Schema.Typing
import TableExport.Text.Upper

/-!
# Declarations of schemas

A table declares the type of its rows, and the objects below that have no name of their own; the
latter are named for the path that leads to them and stand before the object that holds them. A
document declares its definitions, and its table if it describes one.

* `Naming.declareObject` are the declarations of an object.
* `Naming.tableFile` is the file of a table.
* `Naming.definitions` and `Naming.documentFile` go through a document.
-/

namespace TableExport

/-- How types and files are named. -/
structure Naming where
  /-- What stands in front of each name. -/
  lead : String

namespace Naming

variable (naming : Naming)

/-- The name of the type for a definition or a table. -/
def typeName (name : String) : String := naming.lead ++ capitalize name

/-- The name of the file for a table or a document. -/
def fileName (stem : String) : String := naming.lead ++ capitalize stem ++ ".generated.cs"

/-- The type of single values. -/
def primitive : ScalarType → String
  | .integer => "int"
  | .number => "float"
  | .boolean => "bool"
  | .string => "string"

/-- The name of an object without a name, inside the object `owner`. -/
def nestedName (owner name : String) : String := owner ++ "_" ++ capitalize name

/-- The type of a field of the object `owner`. -/
def memberType (owner : String) (member : TypeTree) : String :=
  match member, member.field.typeName with
  | .composite .., some name => naming.typeName name
  | .composite .., none => nestedName owner member.name
  | .leaf field .string, some name =>
    if field.enumValues.isEmpty then primitive .string else naming.typeName name
  | .leaf _ type, _ => primitive type

/-- The field of an object for a node. -/
def objectMember (owner : String) (member : TypeTree) : ObjectMember :=
  ⟨member.name, naming.memberType owner member, member.isArray, member.field.description⟩

mutual

/-- The declarations of an object, those below it first. -/
def declareObject (name : String) : TypeTree → List Declaration
  | .leaf field _ => [.object name field.description field.isStruct []]
  | .composite field members =>
    declareNested name members ++
      [.object name field.description field.isStruct (members.map (naming.objectMember name))]

/-- The declarations of the objects without a name among the fields of `owner`. -/
def declareNested (owner : String) : List TypeTree → List Declaration
  | [] => []
  | .leaf .. :: rest => declareNested owner rest
  | .composite field members :: rest =>
    match field.typeName with
    | some _ => declareNested owner rest
    | none =>
      declareObject (nestedName owner field.name) (.composite field members) ++
        declareNested owner rest

end

/-- The file of a table. -/
def tableFile (table : String) (root : TypeTree) : CodeFile :=
  ⟨naming.fileName table, naming.declareObject (naming.typeName table) root⟩

/-- The declarations of a definition: an enumeration or an object. -/
def declareDefinition (name : String) (node : TypeTree) : List Declaration :=
  if node.isArray then []
  else
    match node with
    | .leaf field .string =>
      if field.enumValues.isEmpty then []
      else
        [.enumeration (naming.typeName name) field.description
          (field.enumValues.map fun value => ⟨value, none⟩)]
    | .leaf .. => []
    | .composite .. => naming.declareObject (naming.typeName name) node

/-- A file, unless it declares nothing. -/
def file? (stem : String) (declarations : List Declaration) : Option CodeFile :=
  if declarations.isEmpty then none else some ⟨naming.fileName stem, declarations⟩

/-- Whether a document describes a table. -/
def isTableSchema (document : Json) : Bool :=
  ["type", "properties", "items", "$ref"].any fun keyword => (document.get? keyword).isSome

section

variable {m : Type → Type} [Monad m] [MonadExceptOf SchemaError m] (library : Library m)

/-- The declarations of named schemas of a document. -/
def declareAll (document : String) : List (String × Json) → m (List Declaration)
  | [] => return []
  | (name, schema) :: rest => do
    let node ← library.typeNode name document schema
    return naming.declareDefinition name node ++ (← declareAll document rest)

/-- The declarations of the definitions of a document. -/
def definitions (document : String) : m (List Declaration) := do
  let root ← library.read document
  match (root.get? "definitions").bind Json.obj? with
  | some members => naming.declareAll library document members
  | none => return []

/-- The file of the definitions of a document, if it defines an object or an enumeration. -/
def definitionsFile (document : String) : m (Option CodeFile) := do
  return naming.file? (displayName document) (← naming.definitions library document)

/-- The file of all that a document declares: its definitions, then the table that it describes. -/
def documentFile (document : String) : m (Option CodeFile) := do
  let stem := displayName document
  let declarations ← naming.definitions library document
  let root ← library.read document
  if isTableSchema root then
    let tree ← library.tableRoot document root
    return naming.file? stem (declarations ++ (naming.tableFile stem tree).declarations)
  else return naming.file? stem declarations

end

end Naming

end TableExport
