import TableExport.Numeric.Binary64

/-!
# Number literals in text

The literals that cells, references and markup hold: whole numbers in a radix and a range, and
decimal fractions. A literal takes the whole text: no blanks, no digit separators, and only the
digits of ASCII.

* `Literal.digits?` is the value of a non-empty run of digits.
* `Literal.unsigned?` and `Literal.signed?` admit a sign and check a range.
* `Literal.double?` reads a decimal fraction, an infinity or `nan`.
-/

namespace TableExport.Literal

/-- The value of a digit below a radix of at most 16. -/
def digit? (radix : Nat) (c : Char) : Option Nat :=
  let value : Option Nat :=
    if '0' ≤ c ∧ c ≤ '9' then some (c.toNat - '0'.toNat)
    else if 'a' ≤ c ∧ c ≤ 'f' then some (c.toNat - 'a'.toNat + 10)
    else if 'A' ≤ c ∧ c ≤ 'F' then some (c.toNat - 'A'.toNat + 10)
    else none
  value.filter (· < radix)

/-- The value of a run of digits, read after the digits that made up `value`. -/
def digitsFrom? (radix : Nat) : Nat → List Char → Option Nat
  | value, [] => some value
  | value, c :: rest => (digit? radix c).bind fun d => digitsFrom? radix (value * radix + d) rest

/-- The value of a non-empty run of digits. -/
def digits? (radix : Nat) : List Char → Option Nat
  | [] => none
  | c :: rest => digitsFrom? radix 0 (c :: rest)

/-- A whole number up to `limit`, with at most one leading `+`. -/
def unsigned? (radix limit : Nat) (text : List Char) : Option Nat :=
  let body := match text with
    | '+' :: rest => rest
    | _ => text
  (digits? radix body).filter (· ≤ limit)

/-- The greatest position, count or index: `2 ^ 64 - 1`. -/
def maxCount : Nat := Nat.pow 2 64 - 1

/-- A decimal count that fits 64 bits. -/
def count? (text : String) : Option Nat := unsigned? 10 maxCount text.toList

/-- A decimal integer in the signed 64-bit range, with at most one leading sign. -/
def signed? (text : String) : Option Int :=
  let value : Option Int := match text.toList with
    | '-' :: rest => (digits? 10 rest).map fun n => -(n : Int)
    | '+' :: rest => (digits? 10 rest).map fun n => (n : Int)
    | rest => (digits? 10 rest).map fun n => (n : Int)
  value.filter fun n => minInteger ≤ n ∧ n ≤ maxInteger

/-! ## Decimal fractions -/

/-- Splits off the leading ASCII digits. -/
def takeDigits (text : List Char) : List Char × List Char := text.span Char.isDigit

/-- The exponent part of a fraction: nothing, or `e` with a signed run of digits. -/
def exponent? : List Char → Option Int
  | [] => some 0
  | e :: rest =>
    if e = 'e' ∨ e = 'E' then
      match rest with
      | '-' :: ds => (digits? 10 ds).map fun n => -(n : Int)
      | '+' :: ds => (digits? 10 ds).map fun n => (n : Int)
      | ds => (digits? 10 ds).map fun n => (n : Int)
    else none

/-- A fraction without its sign: digits with an optional point among or beside them, then an
optional exponent. -/
def fraction? (negative : Bool) (text : List Char) : Option Binary64 :=
  let (whole, rest) := takeDigits text
  let (part, rest) := match rest with
    | '.' :: after => takeDigits after
    | _ => ([], rest)
  (digits? 10 (whole ++ part)).bind fun value =>
    (exponent? rest).map fun e => Binary64.ofDecimal negative value (e - part.length)

/-- A double: a fraction, or one of `inf`, `infinity`, `nan` in any letter case, after at most one
sign. -/
def double? (text : String) : Option Binary64 :=
  let (negative, body) := match text.toList with
    | '-' :: rest => (true, rest)
    | '+' :: rest => (false, rest)
    | rest => (false, rest)
  let word := String.ofList (body.map Char.toLower)
  if word = "inf" ∨ word = "infinity" then some (.infinite negative)
  else if word = "nan" then some .nan
  else fraction? negative body

end TableExport.Literal
