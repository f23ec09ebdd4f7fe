import TableExport.Numeric.Binary64

/-!
# Shortest decimal text of a double

Among the decimals that round back to a double, the text takes one with the fewest digits, and of
those the one nearest to the double. The search runs over the grids of 1 to 17 digits and looks at
the double's two neighbours on each grid.

* `Binary64.roundsBack` tests exactly whether a decimal lies in a double's rounding interval.
* `Binary64.shortest` finds the digits and the decimal exponent.
* `DecimalStyle` says how digits are written; `DecimalStyle.render` writes them.
-/

namespace TableExport

namespace Binary64

/-- Whether `digits · 10 ^ place` rounds to `mantissa · 2 ^ exponent`. The ends of the rounding
interval count when the mantissa is even; below a power of two the interval is half as wide. -/
def roundsBack (mantissa : Nat) (exponent : Int) (digits : Nat) (place : Int) : Bool :=
  let below := if mantissa = Nat.pow 2 52 ∧ minExponent < exponent then 1 else 2
  let low := 4 * mantissa - below
  let high := 4 * mantissa + 2
  -- both sides of `low · 2 ^ (exponent - 2) ≤ digits · 10 ^ place ≤ high · 2 ^ (exponent - 2)`
  let binary := exponent - 2
  let left := Nat.pow 2 binary.toNat * Nat.pow 10 (-place).toNat
  let right := Nat.pow 2 (-binary).toNat * Nat.pow 10 place.toNat
  let value := digits * right
  if mantissa % 2 = 0 then low * left ≤ value && value ≤ high * left
  else low * left < value && value < high * left

/-- The digits below and above `mantissa · 2 ^ exponent` on the grid of `10 ^ place`, the nearer
one first; of two equally near ones the even one comes first. -/
def neighbours (mantissa : Nat) (exponent : Int) (place : Int) : Nat × Nat :=
  let num := mantissa * Nat.pow 2 exponent.toNat * Nat.pow 10 (-place).toNat
  let den := Nat.pow 2 (-exponent).toNat * Nat.pow 10 place.toNat
  let low := num / den
  let twice := 2 * (num % den)
  if twice < den ∨ (twice = den ∧ low % 2 = 0) then (low, low + 1) else (low + 1, low)

/-- The decimal exponent of the leading digit of a positive double. The first guess comes from the
bit length and is corrected by one comparison on each side. -/
def leadingPlace (mantissa : Nat) (exponent : Int) : Int :=
  let reaches (place : Int) : Bool :=
    Nat.pow 10 place.toNat * Nat.pow 2 (-exponent).toNat ≤
      mantissa * Nat.pow 2 exponent.toNat * Nat.pow 10 (-place).toNat
  let guess := ((mantissa.log2 : Int) + exponent) * 30103 / 100000
  if reaches (guess + 1) then guess + 1 else if reaches guess then guess else guess - 1

/-- Searches the grids from `count` digits on, at most `tries` of them. -/
def searchShortest (mantissa : Nat) (exponent leading : Int) : Nat → Nat → Nat × Int
  | 0, _ => (mantissa, exponent)
  | tries + 1, count =>
    let place := leading - count + 1
    let (near, far) := neighbours mantissa exponent place
    if roundsBack mantissa exponent near place then (near, place)
    else if roundsBack mantissa exponent far place then (far, place)
    else searchShortest mantissa exponent leading tries (count + 1)

/-- The shortest digits of a positive double and the decimal place of the last one. -/
def shortest (mantissa : Nat) (exponent : Int) : Nat × Int :=
  searchShortest mantissa exponent (leadingPlace mantissa exponent) 17 1

end Binary64

/-- How the digits of a double are written. -/
structure DecimalStyle where
  /-- Least decimal exponent that is written positionally. -/
  minPositional : Int
  /-- Greatest decimal exponent that is written positionally. -/
  maxPositional : Int
  /-- Sign in front of an exponent that is not negative. -/
  exponentPlus : String

namespace DecimalStyle

/-- The digits of a natural number without its trailing zeros, and how many were dropped. -/
def significant (digits : Nat) : List Char :=
  ((Nat.toDigits 10 digits).reverse.dropWhile (· == '0')).reverse

/-- Positional text of `0.d₁d₂… · 10 ^ (leading + 1)`, with at least one digit after the point. -/
def positional (digits : List Char) (leading : Int) : String :=
  if leading < 0 then
    String.ofList ('0' :: '.' :: List.replicate (-leading - 1).toNat '0' ++ digits)
  else
    let whole := leading.toNat + 1
    let before := digits.take whole ++ List.replicate (whole - digits.length) '0'
    let after := digits.drop whole
    String.ofList (before ++ '.' :: if after.isEmpty then ['0'] else after)

/-- Text `d.ddde±x` of the same number. -/
def scientific (style : DecimalStyle) (digits : List Char) (leading : Int) : String :=
  let mantissa := match digits with
    | [] => "0"
    | [first] => String.ofList [first]
    | first :: rest => String.ofList (first :: '.' :: rest)
  let sign := if leading < 0 then "-" else style.exponentPlus
  mantissa ++ "e" ++ sign ++ toString leading.natAbs

/-- The text of a double. What is no number is written as `null`. -/
def render (style : DecimalStyle) : Binary64 → String
  | .finite negative mantissa exponent =>
    let sign := if negative then "-" else ""
    if mantissa = 0 then sign ++ "0.0"
    else
      let (digits, place) := Binary64.shortest mantissa exponent
      let leading : Int := place + (Nat.toDigits 10 digits).length - 1
      let shown := significant digits
      sign ++
        if style.minPositional ≤ leading ∧ leading ≤ style.maxPositional then
          positional shown leading
        else style.scientific shown leading
  | _ => "null"

end DecimalStyle

end TableExport
