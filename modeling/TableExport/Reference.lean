import TableExport.Numeric.Literal

/-!
# Cell references

A position of a sheet is a row and a column, both counted from 1. A reference writes the column in
letters and the row in digits: `B3` is row 3 of column 2. The letters `A` to `Z` are the digits 1 to
26 of a numeral in base 26 that has no zero.

* `columnName` and `columnIndex?` turn a column into letters and back.
* `Reference.render` and `Reference.parse?` do the same for a position.
-/

namespace TableExport

/-- The letter of a digit: `A` for 0, `Z` for 25. -/
def columnLetter (digit : Nat) : Char := Char.ofNat ('A'.toNat + digit)

/-- The letters of a column, none for column 0. -/
def columnLetters (column : Nat) : List Char :=
  if column = 0 then []
  else columnLetters ((column - 1) / 26) ++ [columnLetter ((column - 1) % 26)]
termination_by column
decreasing_by omega

/-- The name of a column, empty for column 0. -/
def columnName (column : Nat) : String := String.ofList (columnLetters column)

/-- The value of a letter of either case: 1 for `A`, 26 for `Z`. -/
def letterValue? (c : Char) : Option Nat :=
  let upper := c.toUpper
  if 'A' ≤ upper ∧ upper ≤ 'Z' then some (upper.toNat - 'A'.toNat + 1) else none

/-- Reads letters after those that made up `index`, as long as the value fits 64 bits. -/
def columnIndexFrom? (index : Nat) : List Char → Option Nat
  | [] => some index
  | c :: rest =>
    (letterValue? c).bind fun value =>
      let next := index * 26 + value
      if next ≤ Literal.maxCount then columnIndexFrom? next rest else none

/-- The column of a list of letters. -/
def columnIndexOf? : List Char → Option Nat
  | [] => none
  | c :: rest => columnIndexFrom? 0 (c :: rest)

/-- The column with a name in either case; `none` for what is no name or exceeds 64 bits. -/
def columnIndex? (letters : String) : Option Nat := columnIndexOf? letters.toList

namespace Reference

/-- The reference of a position. -/
def render (row column : Nat) : String := columnName column ++ toString row

/-- The position that a reference names. Dollar signs do not count, and rows start at 1. -/
def parse? (reference : String) : Option (Nat × Nat) :=
  let (letters, digits) := (reference.toList.filter (· != '$')).span (!·.isDigit)
  (columnIndexOf? letters).bind fun column =>
    ((Literal.unsigned? 10 Literal.maxCount digits).filter (0 < ·)).map fun row => (row, column)

end Reference

end TableExport
