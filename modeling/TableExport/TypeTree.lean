import TableExport.Cell.Coercion

/-!
# Type trees

The fields of a table form a tree: a leaf holds single values of one type, a composite holds fields
of its own. Either may be an array. The root of a table stands for its set of rows.

* `TypeTree.member?` finds a field by its name.
* `TypeTree.maxDepth` is the number of header rows that the fields below a node take.
* `TypeTree.fieldCount` is the number of nodes below a node.
-/

namespace TableExport

/-- What a schema says about a field besides its type. -/
structure Field where
  name : String
  isArray : Bool := false
  description : Option String := none
  /-- The name of the definition that the schema refers to. -/
  typeName : Option String := none
  /-- Whether a composite is a value type. -/
  isStruct : Bool := false
  /-- The texts that an enumeration admits. -/
  enumValues : List String := []
  deriving DecidableEq, Inhabited

/-- A field with its type. -/
inductive TypeTree
  | leaf (field : Field) (type : ScalarType)
  | composite (field : Field) (members : List TypeTree)
  deriving Inhabited

namespace TypeTree

/-- The name of the node that stands for the rows of a table. -/
def rootName : String := "_root"

/-- What the schema says about the node. -/
def field : TypeTree → Field
  | .leaf field _ => field
  | .composite field _ => field

/-- The node with other attributes. -/
def withField : TypeTree → Field → TypeTree
  | .leaf _ type, field => .leaf field type
  | .composite _ members, field => .composite field members

/-- The name of the field. -/
def name (tree : TypeTree) : String := tree.field.name

/-- Whether the field holds a list. -/
def isArray (tree : TypeTree) : Bool := tree.field.isArray

/-- Whether the values of the field are scalars. -/
def isLeaf : TypeTree → Bool
  | .leaf .. => true
  | .composite .. => false

/-- The type of a leaf. -/
def scalarType? : TypeTree → Option ScalarType
  | .leaf _ type => some type
  | .composite .. => none

/-- The fields of a composite in order. -/
def members : TypeTree → List TypeTree
  | .leaf .. => []
  | .composite _ members => members

/-- The first field with a name. -/
def member? (tree : TypeTree) (name : String) : Option TypeTree :=
  tree.members.find? (·.name == name)

mutual

/-- The number of levels below a node. -/
def maxDepth : TypeTree → Nat
  | .leaf .. => 0
  | .composite _ members => 1 + maxDepthAll members

/-- The greatest number of levels below the nodes of a list. -/
def maxDepthAll : List TypeTree → Nat
  | [] => 0
  | member :: rest => max member.maxDepth (maxDepthAll rest)

end

mutual

/-- The number of nodes below a node. -/
def fieldCount : TypeTree → Nat
  | .leaf .. => 0
  | .composite _ members => fieldCountAll members

/-- The number of nodes of a list and below. -/
def fieldCountAll : List TypeTree → Nat
  | [] => 0
  | member :: rest => 1 + member.fieldCount + fieldCountAll rest

end

/-- A path of field names, written with points between them. -/
def joinPath (path name : String) : String := if path.isEmpty then name else path ++ "." ++ name

end TypeTree

end TableExport
