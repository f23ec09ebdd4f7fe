import TableExport.Cell.Basic
import TableExport.Json.Basic
import TableExport.Text.Blank

/-!
# Coercion of cells

A field of a table has a scalar type, and each of its cells is read as a value of that type.

* `Cell.toInteger`, `Cell.toNumber`, `Cell.toBoolean` and `Cell.display` read one type each.
* `Cell.coerce` chooses by the type; a cell that holds an error has no value.
* `CoercionError.message` says why a cell has no value.
-/

namespace TableExport

/-- The type of a single value. -/
inductive ScalarType
  | integer
  | number
  | boolean
  | string
  deriving DecidableEq, Inhabited

namespace ScalarType

/-- The name of a type in a schema. -/
def name : ScalarType → String
  | .integer => "integer"
  | .number => "number"
  | .boolean => "boolean"
  | .string => "string"

/-- The type with a name. -/
def ofName? (name : String) : Option ScalarType :=
  if name = "integer" then some .integer
  else if name = "number" then some .number
  else if name = "boolean" then some .boolean
  else if name = "string" then some .string
  else none

end ScalarType

/-- A single value. -/
inductive Scalar
  | integer (value : Int)
  | number (value : Binary64)
  | boolean (value : Bool)
  | string (value : String)
  deriving DecidableEq, Inhabited

namespace Scalar

/-- The type of a value. -/
def type : Scalar → ScalarType
  | .integer _ => .integer
  | .number _ => .number
  | .boolean _ => .boolean
  | .string _ => .string

/-- The JSON form of a value. -/
def toJson : Scalar → Json
  | .integer value => .num (.int value)
  | .number value => .num (.double value)
  | .boolean value => .bool value
  | .string value => .str value

end Scalar

/-- Why a cell has no value of a type. -/
inductive CoercionError
  | notInteger
  | outOfRange
  | notNumber
  | notFinite
  | notBoolean
  | errorValue
  deriving DecidableEq, Inhabited

/-- The reason in words, for a cell that stores `value`. -/
def CoercionError.message (value : String) : CoercionError → String
  | .notInteger => "parse '" ++ value ++ "' to integer failed"
  | .outOfRange => "number '" ++ value ++ "' is out of integer range"
  | .notNumber => "parse '" ++ value ++ "' to number failed"
  | .notFinite => "number '" ++ value ++ "' is not finite"
  | .notBoolean => "parse '" ++ value ++ "' to boolean failed, expected true or false"
  | .errorValue => "cell holds the error value '" ++ value ++ "'"

/-- Why a cell could not be read: it has no value of the type, or its date is beyond the day
arithmetic. -/
inductive CellError
  | coercion (cause : CoercionError)
  | overflow (cause : DayOverflow)
  deriving DecidableEq

namespace Cell

/-- The finite double of a cell. Blanks around the text do not count. -/
def toNumber (cell : Cell) : Except CoercionError Binary64 :=
  if cell.kind = .boolean then .ok (Binary64.ofNat (if cell.isTrue then 1 else 0))
  else if cell.kind.isNumber || cell.kind.isText then
    match Literal.double? (trim cell.value) with
    | none => .error .notNumber
    | some number => if number.isFinite then .ok number else .error .notFinite
  else .error .notNumber

/-- The integer part of a double in the range of 64 bits; the number after the greatest integer
counts as that integer. -/
def integerPart (number : Binary64) : Except CoercionError Int :=
  match number.truncated with
  | some n => 
    if n < minInteger ∨ maxInteger + 1 < n then .error .outOfRange
    else if maxInteger < n then .ok maxInteger
    else .ok n
  | none => .error .outOfRange

/-- The integer of a cell. A number loses what stands after the point, a truth value is 1 or 0, and
a text holds an integer literal. -/
def toInteger (cell : Cell) : Except CoercionError Int :=
  if cell.kind = .boolean then .ok (if cell.isTrue then 1 else 0)
  else if cell.kind.isNumber then
    match Literal.signed? cell.value with
    | some n => .ok n
    | none => cell.toNumber.bind integerPart
  else if cell.kind.isText then
    match Literal.signed? (trim cell.value) with
    | some n => .ok n
    | none => .error .notInteger
  else .error .notInteger

/-- The truth value of a cell; a text is `true` or `false` in any letter case. -/
def toBoolean (cell : Cell) : Except CoercionError Bool :=
  if cell.kind = .boolean then .ok cell.isTrue
  else if cell.kind.isText then
    let text := (trim cell.value).map Char.toLower
    if text = "true" then .ok true
    else if text = "false" then .ok false
    else .error .notBoolean
  else .error .notBoolean

/-- The value of a cell as a type. -/
def coerce (type : ScalarType) (cell : Cell) : Except CellError Scalar :=
  if cell.kind = .error then .error (.coercion .errorValue)
  else
    match type with
    | .integer => (cell.toInteger.map Scalar.integer).mapError .coercion
    | .number => (cell.toNumber.map Scalar.number).mapError .coercion
    | .boolean => (cell.toBoolean.map Scalar.boolean).mapError .coercion
    | .string => (cell.display.map Scalar.string).mapError .overflow

end Cell

end TableExport
