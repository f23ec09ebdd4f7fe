/-!
# Bounds of integers

Integers have 64 bits, with a sign or without one.
-/

namespace TableExport

/-- The least integer of 64 bits, `- 2 ^ 63`. -/
def minInteger : Int := -(Nat.pow 2 63 : Nat)

/-- The greatest integer of 64 bits, `2 ^ 63 - 1`. -/
def maxInteger : Int := (Nat.pow 2 63 : Nat) - 1

end TableExport
