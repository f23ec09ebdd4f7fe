import TableExport.Numeric.Bounds

/-!
# Binary64 numbers

A double is held as what it means: a sign, a mantissa and a binary exponent, or one of the values
that are no number. Rounding starts from an exact quotient of naturals, so each operation is exact
arithmetic followed by one rounding.

* `Binary64.ofRatio` is the double nearest to a quotient, a tie going to the even mantissa.
* `mul` and `div` are the exact product and quotient, rounded by `ofRatio`.
* `truncated`, `fraction` and `rounded` cut a double at the point.
* `toBits` is the interchange encoding.
-/

namespace TableExport

/-- A binary64 number. A finite one is `± mantissa · 2 ^ exponent`; its mantissa is below `2 ^ 53`
and at least `2 ^ 52` unless the exponent is the least one, `-1074`. -/
inductive Binary64
  | finite (negative : Bool) (mantissa : Nat) (exponent : Int)
  | infinite (negative : Bool)
  | nan
  deriving DecidableEq, Inhabited

namespace Binary64

/-- The least binary exponent of a finite number. -/
def minExponent : Int := -1074

/-- The greatest binary exponent of a finite number. -/
def maxExponent : Int := 971

/-- Zero with a sign. -/
def zero (negative : Bool) : Binary64 := .finite negative 0 minExponent

/-! ## Rounding -/

/-- The natural number nearest to `num / den`, a tie going to the even one. -/
def divNearestEven (num den : Nat) : Nat :=
  let quotient := num / den
  let twice := 2 * (num % den)
  if twice < den then quotient
  else if den < twice then quotient + 1
  else quotient + quotient % 2

/-- `num / (den · 2 ^ exponent)` rounded to a natural number. -/
def scaledNearestEven (num den : Nat) (exponent : Int) : Nat :=
  if exponent < 0 then divNearestEven (num * Nat.pow 2 (-exponent).toNat) den
  else divNearestEven num (den * Nat.pow 2 exponent.toNat)

/-- The exponent at which a positive quotient has a mantissa of 53 bits, but not below the least
one. The first guess comes from the bit lengths and is at most one too high. -/
def exponentOf (num den : Nat) : Int :=
  let guess : Int := (num.log2 : Int) - den.log2
  let reaches : Bool :=
    if guess < 0 then decide (den ≤ num * Nat.pow 2 (-guess).toNat)
    else decide (den * Nat.pow 2 guess.toNat ≤ num)
  let floorLog : Int := if reaches then guess else guess - 1
  max (floorLog - 52) minExponent

/-- The double nearest to `± num / den`, a tie going to the even mantissa. -/
def ofRatio (negative : Bool) (num den : Nat) : Binary64 :=
  if num = 0 then zero negative
  else
    let exponent := exponentOf num den
    let mantissa := scaledNearestEven num den exponent
    let (mantissa, exponent) :=
      if mantissa = Nat.pow 2 53 then (Nat.pow 2 52, exponent + 1) else (mantissa, exponent)
    if maxExponent < exponent then .infinite negative else .finite negative mantissa exponent

/-- The double nearest to a natural number. -/
def ofNat (n : Nat) : Binary64 := ofRatio false n 1

/-- The double nearest to an integer; zero is positive. -/
def ofInt (n : Int) : Binary64 := ofRatio (n < 0) n.natAbs 1

/-- The double nearest to `± digits · 10 ^ exponent`. Beyond `10 ^ 400` it is infinite and below
`10 ^ -400` zero, whatever the digits, which keeps the powers small. -/
def ofDecimal (negative : Bool) (digits : Nat) (exponent : Int) : Binary64 :=
  if digits = 0 then zero negative
  else
    let magnitude : Int := exponent + (Nat.toDigits 10 digits).length
    if 400 < magnitude then .infinite negative
    else if magnitude < -400 then zero negative
    else if exponent < 0 then ofRatio negative digits (Nat.pow 10 (-exponent).toNat)
    else ofRatio negative (digits * Nat.pow 10 exponent.toNat) 1

/-! ## Reading a number -/

/-- Whether a number is neither infinite nor NaN. -/
def isFinite : Binary64 → Bool
  | .finite .. => true
  | _ => false

/-- Whether a number carries a minus, zero included. -/
def isNegative : Binary64 → Bool
  | .finite negative .. => negative
  | .infinite negative => negative
  | .nan => false

/-- Whether a number is a zero of either sign. -/
def isZero : Binary64 → Bool
  | .finite _ mantissa _ => mantissa == 0
  | _ => false

/-- The magnitude of a finite number as a quotient of naturals. -/
def ratio (mantissa : Nat) (exponent : Int) : Nat × Nat :=
  if exponent < 0 then (mantissa, Nat.pow 2 (-exponent).toNat)
  else (mantissa * Nat.pow 2 exponent.toNat, 1)

/-- The number with the other sign. -/
def neg : Binary64 → Binary64
  | .finite negative mantissa exponent => .finite (!negative) mantissa exponent
  | .infinite negative => .infinite (!negative)
  | .nan => .nan

/-- An integer with a sign put back. -/
def withSign (negative : Bool) (n : Nat) : Int := if negative then -(n : Int) else n

/-- The integer part, cut toward zero; `none` for what is no number. -/
def truncated : Binary64 → Option Int
  | .finite negative mantissa exponent =>
    let (num, den) := ratio mantissa exponent
    some (withSign negative (num / den))
  | _ => none

/-- The nearest integer, a half going away from zero. -/
def rounded : Binary64 → Option Int
  | .finite negative mantissa exponent =>
    let (num, den) := ratio mantissa exponent
    some (withSign negative ((2 * num + den) / (2 * den)))
  | _ => none

/-- The part after the point, with the sign of the number. It is exact; what is no number has no
fraction. -/
def fraction : Binary64 → Binary64
  | .finite negative mantissa exponent =>
    let (num, den) := ratio mantissa exponent
    ofRatio negative (num % den) den
  | _ => .nan

/-- The integer part in the signed 64-bit range: what is out of range goes to its nearer end and
what is no number to zero. -/
def toInt64 : Binary64 → Int
  | .nan => 0
  | .infinite negative => if negative then minInteger else maxInteger
  | number@(.finite ..) =>
    let n := number.truncated.getD 0
    if n < minInteger then minInteger else if maxInteger < n then maxInteger else n

/-! ## Arithmetic and order -/

/-- Product, rounded once. -/
def mul : Binary64 → Binary64 → Binary64
  | .finite s m e, .finite t n f =>
    let (a, b) := ratio m e
    let (c, d) := ratio n f
    ofRatio (s != t) (a * c) (b * d)
  | .nan, _ | _, .nan => .nan
  | x, y => if x.isZero || y.isZero then .nan else .infinite (x.isNegative != y.isNegative)

/-- Quotient, rounded once. -/
def div : Binary64 → Binary64 → Binary64
  | .finite s m e, .finite t n f =>
    if n = 0 then if m = 0 then .nan else .infinite (s != t)
    else
      let (a, b) := ratio m e
      let (c, d) := ratio n f
      ofRatio (s != t) (a * d) (b * c)
  | .nan, _ | _, .nan => .nan
  | .infinite _, .infinite _ => .nan
  | .infinite s, .finite t _ _ => .infinite (s != t)
  | .finite s _ _, .infinite t => zero (s != t)

/-- The value of a finite number as an integer numerator over a positive denominator. -/
def quotient? : Binary64 → Option (Int × Nat)
  | .finite negative mantissa exponent =>
    let (num, den) := ratio mantissa exponent
    some (withSign negative num, den)
  | _ => none

/-! ## Interchange encoding -/

/-- The 64 bits of a number: sign, biased exponent, mantissa without its leading bit. -/
def toBits : Binary64 → UInt64
  | .finite negative mantissa exponent =>
    let sign : Nat := if negative then Nat.pow 2 63 else 0
    let magnitude : Nat :=
      if mantissa < Nat.pow 2 52 then mantissa
      else (exponent - minExponent + 1).toNat * Nat.pow 2 52 + (mantissa - Nat.pow 2 52)
    UInt64.ofNat (sign + magnitude)
  | .infinite negative => if negative then 0xFFF0000000000000 else 0x7FF0000000000000
  | .nan => 0x7FF8000000000000

end Binary64

end TableExport
