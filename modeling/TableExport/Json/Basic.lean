import TableExport.Entries
import TableExport.Numeric.Binary64

/-!
# JSON values

Schemas, configurations and exported tables are JSON values. The members of an object stand in the
order in which they came, and a number remembers whether it is an integer or a double.

* `Json.get?` is a member of an object, and nothing for any other value.
* `Json.size` counts the nodes of a value; it bounds walks through it.
-/

namespace TableExport

/-- A number: an integer of 64 bits, signed or not, or a double. -/
inductive Number
  | int (value : Int)
  | double (value : Binary64)
  deriving DecidableEq, Inhabited

/-- A JSON value. -/
inductive Json
  | null
  | bool (value : Bool)
  | num (value : Number)
  | str (value : String)
  | arr (items : List Json)
  | obj (members : List (String × Json))
  deriving Inhabited

namespace Json

/-- The member of an object with a name. -/
def get? : Json → String → Option Json
  | .obj members, name => Entries.get? members name
  | _, _ => none

/-- The text of a string. -/
def str? : Json → Option String
  | .str value => some value
  | _ => none

/-- The truth value. -/
def bool? : Json → Option Bool
  | .bool value => some value
  | _ => none

/-- The items of an array. -/
def arr? : Json → Option (List Json)
  | .arr items => some items
  | _ => none

/-- The members of an object. -/
def obj? : Json → Option (Entries Json)
  | .obj members => some members
  | _ => none

/-- An integer. -/
def ofInt (value : Int) : Json := .num (.int value)

mutual

/-- The number of nodes of a value. -/
def size : Json → Nat
  | .arr items => sizeItems items + 1
  | .obj members => sizeMembers members + 1
  | _ => 1

/-- The number of nodes of the items of an array. -/
def sizeItems : List Json → Nat
  | [] => 0
  | item :: rest => item.size + sizeItems rest

/-- The number of nodes of the members of an object. -/
def sizeMembers : Entries Json → Nat
  | [] => 0
  | (_, value) :: rest => value.size + sizeMembers rest

end

end Json

end TableExport
