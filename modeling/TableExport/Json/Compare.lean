import TableExport.Json.Basic

/-!
# Comparing JSON values

Numbers compare by value, whether they are integers or doubles.

* `Number.compare` is the exact order of numbers.
* `Json.same` is equality of values; the members of objects are compared in order.
-/

namespace TableExport

namespace Number

/-- A number as a fraction. A double that is no number counts as zero. -/
def fraction : Number → Int × Nat
  | .int value => (value, 1)
  | .double value => value.quotient?.getD (0, 1)

/-- The exact order of two numbers. -/
def compare (a b : Number) : Ordering :=
  let (p, q) := a.fraction
  let (r, s) := b.fraction
  Ord.compare (p * s) (r * q)

/-- The nearest double. -/
def toDouble : Number → Binary64
  | .int value => Binary64.ofInt value
  | .double value => value

/-- Whether a number is an integer. -/
def isInteger : Number → Bool
  | .int _ => true
  | .double value =>
    match value.quotient? with
    | some (num, den) => num % den == 0
    | none => false

/-- Equality of numbers: of integers exactly, and otherwise of the nearest doubles. -/
def same : Number → Number → Bool
  | .int a, .int b => a == b
  | a, b => compare (.double a.toDouble) (.double b.toDouble) == .eq

end Number

namespace Json

mutual

/-- Equality of values. -/
def same : Json → Json → Bool
  | .null, .null => true
  | .bool a, .bool b => a == b
  | .num a, .num b => a.same b
  | .str a, .str b => a == b
  | .arr a, .arr b => sameItems a b
  | .obj a, .obj b => sameMembers a b
  | _, _ => false

/-- Equality of lists of values. -/
def sameItems : List Json → List Json → Bool
  | [], [] => true
  | a :: as, b :: bs => a.same b && sameItems as bs
  | _, _ => false

/-- Equality of lists of members. -/
def sameMembers : List (String × Json) → List (String × Json) → Bool
  | [], [] => true
  | (name, a) :: as, (other, b) :: bs => name == other && a.same b && sameMembers as bs
  | _, _ => false

end

/-- Whether no value comes twice in a list. -/
def allDistinct : List Json → Bool
  | [] => true
  | item :: rest => !rest.any item.same && allDistinct rest

end Json

end TableExport
